import JitoGame.Auth.Services

namespace JitoGame.Auth

open Transactions

variable {env : Env}

def Db.Known {Hash : Type} (d : Db Hash) (id : Uuid) : Prop := ∃ s ∈ d.sessions, s.id = id

structure Session.Same (s s' : Session) : Prop where
  id : s'.id = s.id
  userId : s'.userId = s.userId
  adminId : s'.adminId = s.adminId
  refreshTokenHash : s'.refreshTokenHash = s.refreshTokenHash
  revoked : s.revokedAt.isSome = true → s'.revokedAt.isSome = true

def Grows {Hash : Type} (d d' : Db Hash) : Prop := ∀ s ∈ d.sessions, ∃ s' ∈ d'.sessions, s.Same s'

def footprint : Write env.Hash → List (Resource (schema env))
  | .setPasswordHash id _ => [.row (.user id)]
  | .resetFailures id _ => [.row (.user id)]
  | .failLogin id _ _ => [.row (.user id)]
  | .touchAdmin id _ => [.row (.admin id)]
  | .insertSession row => [.row (.tokenHash row.refreshTokenHash), .id row.id]
  | .revoke id _ => [.row (.session id)]
  | .replace id _ _ => [.row (.session id)]

def Agree (r : Resource (schema env)) (d d' : Db env.Hash) : Prop :=
  match r with
  | .row (.user id) => ∀ u ∈ d.users, u.id = id → u ∈ d'.users
  | .row (.admin id) => ∀ a ∈ d.adminUsers, a.id = id → a ∈ d'.adminUsers
  | .row (.session id) => ∀ s ∈ d.sessions, s.id = id → s ∈ d'.sessions
  | .row (.tokenHash hash) => d'.hasToken hash = true → d.hasToken hash = true
  | .id x => d'.Known x → d.Known x

section Laws

variable {r : Resource (schema env)} {x : Write env.Hash} {d d₁ d₂ d₃ : Db env.Hash}

theorem Session.Same.refl (s : Session) : s.Same s := ⟨rfl, rfl, rfl, rfl, fun h => h⟩

theorem Session.Same.trans {s s' s'' : Session} (h : s.Same s') (h' : s'.Same s'') : s.Same s'' :=
  ⟨h'.id.trans h.id, h'.userId.trans h.userId, h'.adminId.trans h.adminId,
    h'.refreshTokenHash.trans h.refreshTokenHash, fun hs => h'.revoked (h.revoked hs)⟩

theorem Write.same_session (x : Write env.Hash) (s : Session) : s.Same (x.session s) := by
  cases x with
  | revoke id t =>
    simp only [Write.session]
    split
    · exact ⟨rfl, rfl, rfl, rfl, fun _ => rfl⟩
    · exact .refl s
  | replace id t successor =>
    simp only [Write.session]
    split
    · exact ⟨rfl, rfl, rfl, rfl, fun _ => rfl⟩
    · exact .refl s
  | _ => exact .refl s

theorem mem_sessions_apply {s : Session} : s ∈ (x.apply d).sessions ↔
    (∃ s₀ ∈ d.sessions, x.session s₀ = s) ∨ s ∈ x.newSessions := by
  simp [Write.apply]

theorem grows_apply (x : Write env.Hash) (d : Db env.Hash) : Grows d (x.apply d) := fun s hs =>
  ⟨x.session s, mem_sessions_apply.mpr (.inl ⟨s, hs, rfl⟩), x.same_session s⟩

theorem Grows.refl (d : Db env.Hash) : Grows d d := fun s hs => ⟨s, hs, .refl s⟩

theorem Grows.trans (h : Grows d₁ d₂) (h' : Grows d₂ d₃) : Grows d₁ d₃ := by
  intro s hs
  obtain ⟨s', hs', hsame⟩ := h s hs
  obtain ⟨s'', hs'', hsame'⟩ := h' s' hs'
  exact ⟨s'', hs'', hsame.trans hsame'⟩

theorem Agree.refl (r : Resource (schema env)) (d : Db env.Hash) : Agree r d d := by
  cases r with
  | id y => exact fun h => h
  | row l =>
    cases l with
    | tokenHash hash => exact fun h => h
    | _ => exact fun _ h _ => h

theorem Agree.trans (h : Agree r d₁ d₂) (h' : Agree r d₂ d₃) : Agree r d₁ d₃ := by
  cases r with
  | id y => exact fun hy => h (h' hy)
  | row l =>
    cases l with
    | tokenHash hash => exact fun hy => h (h' hy)
    | user id => exact fun u hu hid => h' u (h u hu hid) hid
    | admin id => exact fun a ha hid => h' a (h a ha hid) hid
    | session id => exact fun s hs hid => h' s (h s hs hid) hid

theorem known_apply {y : Uuid} (h : (x.apply d).Known y) :
    d.Known y ∨ .id y ∈ footprint x := by
  obtain ⟨s, hs, rfl⟩ := h
  rcases mem_sessions_apply.mp hs with ⟨s₀, hs₀, rfl⟩ | hs
  · exact .inl ⟨s₀, hs₀, ((x.same_session s₀).id).symm⟩
  · cases x with
    | insertSession row =>
      obtain rfl : s = row := by simpa [Write.newSessions] using hs
      exact .inr (by simp [footprint])
    | _ => cases hs

theorem frame_token {hash : String} (h : .row (.tokenHash hash) ∉ footprint x)
    (ht : (x.apply d).hasToken hash = true) : d.hasToken hash = true := by
  simp only [Db.hasToken, List.any_eq_true, decide_eq_true_eq] at ht ⊢
  obtain ⟨s, hs, rfl⟩ := ht
  rcases mem_sessions_apply.mp hs with ⟨s₀, hs₀, rfl⟩ | hs
  · exact ⟨s₀, hs₀, ((x.same_session s₀).refreshTokenHash).symm⟩
  · cases x with
    | insertSession row =>
      obtain rfl : s = row := by simpa [Write.newSessions] using hs
      exact absurd (by simp [footprint]) h
    | _ => cases hs

theorem frame_session {id : Uuid} (h : .row (.session id) ∉ footprint x) {s : Session}
    (hs : s ∈ d.sessions) (hid : s.id = id) : s ∈ (x.apply d).sessions := by
  refine mem_sessions_apply.mpr (.inl ⟨s, hs, ?_⟩)
  cases x with
  | revoke j t =>
    have hj : s.id ≠ j := by rintro rfl; simp [footprint, hid] at h
    simp [Write.session, hj]
  | replace j t successor =>
    have hj : s.id ≠ j := by rintro rfl; simp [footprint, hid] at h
    simp [Write.session, hj]
  | _ => rfl

theorem frame_user {id : Uuid} (h : .row (.user id) ∉ footprint x) {u : User env.Hash}
    (hu : u ∈ d.users) (hid : u.id = id) : u ∈ (x.apply d).users := by
  refine List.mem_map.mpr ⟨u, hu, ?_⟩
  cases x with
  | setPasswordHash j p =>
    have hj : u.id ≠ j := by rintro rfl; simp [footprint, hid] at h
    simp [Write.user, hj]
  | resetFailures j t =>
    have hj : u.id ≠ j := by rintro rfl; simp [footprint, hid] at h
    simp [Write.user, hj]
  | failLogin j n t =>
    have hj : u.id ≠ j := by rintro rfl; simp [footprint, hid] at h
    simp [Write.user, hj]
  | _ => rfl

theorem frame_admin {id : Uuid} (h : .row (.admin id) ∉ footprint x)
    {a : AdminUser env.Hash} (ha : a ∈ d.adminUsers) (hid : a.id = id) :
    a ∈ (x.apply d).adminUsers := by
  refine List.mem_map.mpr ⟨a, ha, ?_⟩
  cases x with
  | touchAdmin j t =>
    have hj : a.id ≠ j := by rintro rfl; simp [footprint, hid] at h
    simp [Write.admin, hj]
  | _ => rfl

theorem frame (d : Db env.Hash) (h : r ∉ footprint x) : Agree r d (x.apply d) := by
  cases r with
  | id y => exact fun hy => (known_apply hy).resolve_right h
  | row l =>
    cases l with
    | tokenHash hash => exact frame_token h
    | user id => exact fun _ hu hid => frame_user h hu hid
    | admin id => exact fun _ ha hid => frame_admin h ha hid
    | session id => exact fun _ hs hid => frame_session h hs hid

end Laws

def discipline (base : Db env.Hash) (spec : Commit (schema env) → Db env.Hash → Prop) :
    Protocol (schema env) where
  base := base
  foot := footprint
  agree := Agree
  le := Grows
  known := Db.Known
  spec := spec
  agree_refl := Agree.refl
  agree_trans := Agree.trans
  frame := frame
  le_refl := Grows.refl
  le_trans := Grows.trans
  le_apply := grows_apply
  known_apply := known_apply

end JitoGame.Auth
