import JitoGame.Auth.Verified
import JitoGame.Chains
import Mathlib.Data.List.Nodup

namespace JitoGame.Auth

open Transactions AuthService

def Link (l : List Session) (a b : Uuid) : Prop := ∃ s ∈ l, s.id = a ∧ s.replacedBySessionId = some b

structure Keyed (l : List Session) : Prop where
  ids : (l.map (·.id)).Nodup
  tokens : (l.map (·.refreshTokenHash)).Nodup
  owner : ∀ s ∈ l, s.userId.isSome ≠ s.adminId.isSome

structure Sound (l : List Session) : Prop extends Keyed l where
  revoked : ∀ s ∈ l, s.replacedBySessionId.isSome = true → s.revokedAt.isSome = true
  successor : ∀ s ∈ l, ∀ id, s.replacedBySessionId = some id →
    ∃ t ∈ l, t.id = id ∧ t.userId = s.userId ∧ t.adminId = s.adminId
  chains : Chains (Link l)

namespace Keyed

variable {l : List Session}

theorem eq_of_id (h : Keyed l) {s t : Session} (hs : s ∈ l) (ht : t ∈ l) (hid : s.id = t.id) : s = t :=
  List.inj_on_of_nodup_map h.ids hs ht hid

theorem eq_of_token (h : Keyed l) {s t : Session} (hs : s ∈ l) (ht : t ∈ l)
    (htoken : s.refreshTokenHash = t.refreshTokenHash) : s = t :=
  List.inj_on_of_nodup_map h.tokens hs ht htoken

theorem map (h : Keyed l) {f : Session → Session} (hsame : ∀ s : Session, s.Same (f s)) :
    Keyed (l.map f) where
  ids := by
    have hids : (l.map f).map (·.id) = l.map (·.id) := by
      rw [List.map_map]
      exact List.map_congr_left fun s _ => (hsame s).id
    exact hids ▸ h.ids
  tokens := by
    have htokens : (l.map f).map (·.refreshTokenHash) = l.map (·.refreshTokenHash) := by
      rw [List.map_map]
      exact List.map_congr_left fun s _ => (hsame s).refreshTokenHash
    exact htokens ▸ h.tokens
  owner s hs := by
    obtain ⟨s₀, hs₀, rfl⟩ := List.mem_map.mp hs
    rw [(hsame s₀).userId, (hsame s₀).adminId]
    exact h.owner s₀ hs₀

theorem append (h : Keyed l) {row : Session} (hid : ∀ s ∈ l, s.id ≠ row.id)
    (htoken : ∀ s ∈ l, s.refreshTokenHash ≠ row.refreshTokenHash)
    (howner : row.userId.isSome ≠ row.adminId.isSome) : Keyed (l ++ [row]) where
  ids := by
    rw [List.map_append]
    refine List.nodup_append.mpr ⟨h.ids, List.nodup_singleton _, fun a ha b hb => ?_⟩
    obtain ⟨s, hs, rfl⟩ := List.mem_map.mp ha
    obtain rfl : b = row.id := by simpa using hb
    exact hid s hs
  tokens := by
    rw [List.map_append]
    refine List.nodup_append.mpr ⟨h.tokens, List.nodup_singleton _, fun a ha b hb => ?_⟩
    obtain ⟨s, hs, rfl⟩ := List.mem_map.mp ha
    obtain rfl : b = row.refreshTokenHash := by simpa using hb
    exact htoken s hs
  owner s hs := by
    rcases List.mem_append.mp hs with hs | hs
    · exact h.owner s hs
    · obtain rfl := List.mem_singleton.mp hs
      exact howner

end Keyed

namespace Sound

variable {l : List Session}

theorem nil : Sound [] where
  ids := .nil
  tokens := .nil
  owner _ hs := by cases hs
  revoked _ hs := by cases hs
  successor _ hs := by cases hs
  chains := by
    have hnone (a b : Uuid) : ¬ Link [] a b := by
      rintro ⟨s, hs, -⟩
      cases hs
    refine ⟨fun a b _ hb => absurd hb (hnone a b), fun a _ c hc => absurd hc (hnone a c), fun a ha => ?_⟩
    obtain ⟨b, hb, -⟩ := Relation.TransGen.head'_iff.mp ha
    exact hnone a b hb

theorem not_link_of_live (h : Sound l) {s : Session} (hs : s ∈ l) (hlive : s.revokedAt = none)
    (b : Uuid) : ¬ Link l s.id b := by
  rintro ⟨t, ht, hid, hlink⟩
  obtain rfl := h.eq_of_id ht hs hid
  have hrevoked := h.revoked t ht (by rw [hlink]; rfl)
  rw [hlive] at hrevoked
  cases hrevoked

theorem known_of_link (h : Sound l) {a b : Uuid} (hab : Link l a b) : ∃ t ∈ l, t.id = b := by
  obtain ⟨s, hs, -, hlink⟩ := hab
  obtain ⟨t, ht, hid, -⟩ := h.successor s hs b hlink
  exact ⟨t, ht, hid⟩

theorem map (h : Sound l) {f : Session → Session} (hsame : ∀ s : Session, s.Same (f s))
    (hlink : ∀ s, (f s).replacedBySessionId = s.replacedBySessionId) : Sound (l.map f) where
  toKeyed := h.toKeyed.map hsame
  revoked s hs hnext := by
    obtain ⟨s₀, hs₀, rfl⟩ := List.mem_map.mp hs
    rw [hlink] at hnext
    exact (hsame s₀).revoked (h.revoked s₀ hs₀ hnext)
  successor s hs id hid := by
    obtain ⟨s₀, hs₀, rfl⟩ := List.mem_map.mp hs
    rw [hlink] at hid
    obtain ⟨t, ht, rfl, huser, hadmin⟩ := h.successor s₀ hs₀ id hid
    refine ⟨f t, List.mem_map_of_mem ht, (hsame t).id, ?_, ?_⟩
    · rw [(hsame t).userId, (hsame s₀).userId, huser]
    · rw [(hsame t).adminId, (hsame s₀).adminId, hadmin]
  chains := by
    refine h.chains.congr fun a b => ⟨?_, ?_⟩
    · rintro ⟨s, hs, rfl, hnext⟩
      obtain ⟨s₀, hs₀, rfl⟩ := List.mem_map.mp hs
      exact ⟨s₀, hs₀, ((hsame s₀).id).symm, (hlink s₀).symm.trans hnext⟩
    · rintro ⟨s, hs, rfl, hnext⟩
      exact ⟨f s, List.mem_map_of_mem hs, (hsame s).id, (hlink s).trans hnext⟩

theorem append (h : Sound l) {row : Session} (hkeyed : Keyed (l ++ [row]))
    (hnone : row.replacedBySessionId = none) : Sound (l ++ [row]) where
  toKeyed := hkeyed
  revoked s hs hnext := by
    rcases List.mem_append.mp hs with hs | hs
    · exact h.revoked s hs hnext
    · obtain rfl := List.mem_singleton.mp hs
      rw [hnone] at hnext
      cases hnext
  successor s hs id hnext := by
    rcases List.mem_append.mp hs with hs | hs
    · obtain ⟨t, ht, hrest⟩ := h.successor s hs id hnext
      exact ⟨t, List.mem_append_left _ ht, hrest⟩
    · obtain rfl := List.mem_singleton.mp hs
      rw [hnone] at hnext
      cases hnext
  chains := by
    refine h.chains.congr fun a b => ⟨?_, ?_⟩
    · rintro ⟨s, hs, rfl, hnext⟩
      rcases List.mem_append.mp hs with hs | hs
      · exact ⟨s, hs, rfl, hnext⟩
      · obtain rfl := List.mem_singleton.mp hs
        rw [hnone] at hnext
        cases hnext
    · rintro ⟨s, hs, rfl, hnext⟩
      exact ⟨s, List.mem_append_left _ hs, rfl, hnext⟩

section Replace

variable {env : Env} {s row : Session} {t : ℕ}

theorem link_replace (h : Sound l) (hs : s ∈ l) (hlive : s.revokedAt = none) (next a b : Uuid) :
    Link (l.map (Write.replace s.id t next : Write env.Hash).session) a b ↔
      Link l a b ∨ (a = s.id ∧ b = next) := by
  constructor
  · rintro ⟨x, hx, rfl, hnext⟩
    obtain ⟨x₀, hx₀, rfl⟩ := List.mem_map.mp hx
    simp only [Write.session] at hnext ⊢
    split at hnext
    · rename_i heq
      rw [if_pos heq]
      exact .inr ⟨heq, (Option.some.inj hnext).symm⟩
    · rename_i hne
      rw [if_neg hne]
      exact .inl ⟨x₀, hx₀, rfl, hnext⟩
  · rintro (⟨x, hx, rfl, hnext⟩ | ⟨rfl, rfl⟩)
    · have hne : x.id ≠ s.id := fun heq => h.not_link_of_live hs hlive b ⟨x, hx, heq, hnext⟩
      refine ⟨_, List.mem_map_of_mem hx, ?_, ?_⟩
      · simp [Write.session, hne]
      · simp [Write.session, hne, hnext]
    · refine ⟨_, List.mem_map_of_mem hs, ?_, ?_⟩
      · simp [Write.session, Session.replaced]
      · simp [Write.session, Session.replaced]

theorem replace (h : Sound l) (hs : s ∈ l) (hlive : s.revokedAt = none) (hrow : row ∈ l)
    (hnone : row.replacedBySessionId = none) (hfirst : ∀ a, ¬ Link l a row.id) (hne : s ≠ row)
    (huser : row.userId = s.userId) (hadmin : row.adminId = s.adminId) :
    Sound (l.map (Write.replace s.id t row.id : Write env.Hash).session) where
  toKeyed := h.toKeyed.map fun x => Write.same_session _ x
  revoked x hx hnext := by
    obtain ⟨x₀, hx₀, rfl⟩ := List.mem_map.mp hx
    simp only [Write.session] at hnext ⊢
    split
    · rfl
    · rename_i hid
      rw [if_neg hid] at hnext
      exact h.revoked x₀ hx₀ hnext
  successor x hx id hnext := by
    obtain ⟨x₀, hx₀, rfl⟩ := List.mem_map.mp hx
    have hsucc : ∃ y ∈ l, y.id = id ∧ y.userId = x₀.userId ∧ y.adminId = x₀.adminId := by
      simp only [Write.session] at hnext
      split at hnext
      · rename_i heq
        rw [h.eq_of_id hx₀ hs heq]
        exact ⟨row, hrow, Option.some.inj hnext, huser, hadmin⟩
      · exact h.successor x₀ hx₀ id hnext
    obtain ⟨y, hy, rfl, huser', hadmin'⟩ := hsucc
    have hsame := (Write.replace s.id t row.id : Write env.Hash).same_session
    refine ⟨_, List.mem_map_of_mem hy, (hsame y).id, ?_, ?_⟩
    · rw [(hsame y).userId, (hsame x₀).userId, huser']
    · rw [(hsame y).adminId, (hsame x₀).adminId, hadmin']
  chains := by
    have hextends : Extends (Link l)
        (Link (l.map (Write.replace s.id t row.id : Write env.Hash).session))
        s.id row.id := by
      refine ⟨h.link_replace hs hlive row.id, h.not_link_of_live hs hlive, hfirst, ?_, ?_⟩
      · rintro b ⟨x, hx, heq, hnext⟩
        rw [h.eq_of_id hx hrow heq, hnone] at hnext
        cases hnext
      · exact fun heq => hne (h.eq_of_id hs hrow heq)
    exact hextends.chains h.chains

end Replace

end Sound

section Commits

variable {env : Env} {base d : Db env.Hash} {ws : List (Write env.Hash)} {c : Commit (schema env)}
variable {s row : Session} {owner : Uuid} {aud : Audience} {rawToken : String} {t : ℕ}

namespace Creates

theorem userId (h : Creates env row owner aud d) :
    row.userId = if aud = .player then some owner else none := by
  obtain ⟨ip, userAgent, rawToken, nowMs, hrow⟩ := h.eq_row
  rw [hrow]
  rfl

theorem adminId (h : Creates env row owner aud d) :
    row.adminId = if aud = .player then none else some owner := by
  obtain ⟨ip, userAgent, rawToken, nowMs, hrow⟩ := h.eq_row
  rw [hrow]
  rfl

theorem replacedBySessionId (h : Creates env row owner aud d) : row.replacedBySessionId = none := by
  obtain ⟨ip, userAgent, rawToken, nowMs, hrow⟩ := h.eq_row
  rw [hrow]
  rfl

theorem sound (h : Creates env row owner aud d) (hd : Sound d.sessions) :
    Sound (d.sessions ++ [row]) := by
  refine hd.append (hd.toKeyed.append (fun s hs hid => h.fresh ⟨s, hs, hid⟩) ?_ ?_)
    h.replacedBySessionId
  · intro s hs htoken
    have htaken : d.hasToken row.refreshTokenHash = true :=
      List.any_eq_true.mpr ⟨s, hs, decide_eq_true htoken⟩
    rw [h.token] at htaken
    cases htaken
  · rw [h.userId, h.adminId]
    cases aud with
    | player => exact nofun
    | admin => exact nofun

end Creates

theorem sessions_insert (row : Session) (d : Db env.Hash) :
    ((Write.insertSession row).apply d).sessions = d.sessions ++ [row] := by
  have hid : (Write.insertSession row : Write env.Hash).session = id := rfl
  simp [Write.apply, Write.newSessions, hid]

theorem sessions_rotation : Db.sessions (applyAll (S := schema env) (rotation env s t row) d) =
    (d.sessions ++ [row]).map (Write.replace s.id t row.id : Write env.Hash).session := by
  change ((Write.replace s.id t row.id).apply ((Write.insertSession row).apply d)).sessions = _
  rw [← sessions_insert]
  simp [Write.apply, Write.newSessions]

theorem Rotates.same_owner (h : Rotates env rawToken s owner row d)
    (hone : s.userId.isSome ≠ s.adminId.isSome) :
    row.userId = s.userId ∧ row.adminId = s.adminId := by
  have howned := h.owned
  rw [h.creates.userId, h.creates.adminId]
  unfold audience isAdmin
  unfold ownerId at howned
  cases huser : s.userId with
  | none =>
    rw [huser] at howned
    exact ⟨rfl, howned.symm⟩
  | some id =>
    rw [huser] at howned hone
    obtain rfl : id = owner := Option.some.inj howned
    cases hadmin : s.adminId with
    | none => exact ⟨rfl, rfl⟩
    | some a => exact absurd (by rw [hadmin]; rfl) hone

theorem Rotates.sound (h : Rotates env rawToken s owner row d) (hd : Sound d.sessions) :
    Sound (Db.sessions (applyAll (S := schema env) (rotation env s t row) d)) := by
  rw [sessions_rotation]
  have hnew := h.creates.sound hd
  obtain ⟨huser, hadmin⟩ := h.same_owner (hd.owner s h.mem)
  refine hnew.replace (List.mem_append_left _ h.mem) h.live (by simp) h.creates.replacedBySessionId ?_
    ?_ huser hadmin
  · rintro a ⟨x, hx, -, hnext⟩
    rcases List.mem_append.mp hx with hx | hx
    · obtain ⟨y, hy, hid⟩ := hd.known_of_link ⟨x, hx, rfl, hnext⟩
      exact h.creates.fresh ⟨y, hy, hid⟩
    · obtain rfl := List.mem_singleton.mp hx
      rw [h.creates.replacedBySessionId] at hnext
      cases hnext
  · rintro rfl
    exact h.creates.fresh ⟨s, h.mem, rfl⟩

theorem Sound.revocations (h : Sound d.sessions) (hws : Revocations ws) :
    Sound (Db.sessions (applyAll (S := schema env) ws d)) := by
  induction ws generalizing d with
  | nil => exact h
  | cons x ws ih =>
    obtain ⟨id, t, rfl⟩ := hws x List.mem_cons_self
    refine ih ?_ fun y hy => hws y (List.mem_cons_of_mem _ hy)
    have hmap : ((Write.revoke id t : Write env.Hash).apply d).sessions =
        d.sessions.map (Write.revoke id t : Write env.Hash).session := by
      simp [Write.apply, Write.newSessions]
    rw [hmap]
    apply h.map (Write.same_session _)
    intro s
    simp only [Write.session]
    split
    · rfl
    · rfl

theorem Does.sound (hc : Does c d) (h : Sound d.sessions) :
    Sound (Db.sessions (applyAll (S := schema env) c.writes d)) := by
  have hpassword (id : Uuid) (hash : env.Hash) :
      ((Write.setPasswordHash id hash).apply d).sessions = d.sessions :=
    Quiet.sessions ⟨fun _ => rfl, rfl⟩ d
  cases hc with
  | rehash _ _ _ hw =>
    rw [hw, applyAll_cons, applyAll_nil, hpassword]
    exact h
  | account _ hw hx =>
    rw [hw, applyAll_cons, applyAll_nil, hx.quiet.sessions]
    exact h
  | login _ _ _ hw hcreates =>
    rw [hw, applyAll_cons, applyAll_nil, sessions_insert]
    exact hcreates.sound h
  | adminLogin _ hw hcreates =>
    rw [hw, applyAll_cons, applyAll_nil, sessions_insert]
    exact hcreates.sound h
  | rotation _ hw hrotates =>
    rw [hw]
    exact hrotates.sound h
  | revocation _ hw => exact h.revocations hw
  | change _ _ hw hws _ =>
    rw [hw, applyAll_cons]
    refine Sound.revocations ?_ hws
    rw [hpassword]
    exact h

end Commits

def Write.replacedId {Hash : Type} : Write Hash → Option Uuid
  | .replace id _ _ => some id
  | _ => none

section Log

variable {env : Env} {base d d' : Db env.Hash} {c c' : Commit (schema env)}
variable {log log' older older' : List (Commit (schema env))}

def replacements (log : List (Commit (schema env))) : List Uuid :=
  log.flatMap fun c => c.writes.filterMap Write.replacedId

def Spent (d : Db env.Hash) (s : Session) : Prop :=
  ∃ s' ∈ d.sessions, s.Same s' ∧ s'.revokedAt.isSome = true

theorem Spent.mono {s : Session} (h : Spent d s) (hle : Grows d d') : Spent d' s := by
  obtain ⟨s', hs', hsame, hrevoked⟩ := h
  obtain ⟨s'', hs'', hsame'⟩ := hle s' hs'
  exact ⟨s'', hs'', hsame.trans hsame', hsame'.revoked hrevoked⟩

theorem Spent.not_live {s x : Session} (h : Spent d s) (hd : Keyed d.sessions) (hx : x ∈ d.sessions)
    (hkey : x.id = s.id ∨ x.refreshTokenHash = s.refreshTokenHash) : x.revokedAt ≠ none := by
  intro hlive
  obtain ⟨s', hs', hsame, hrevoked⟩ := h
  obtain rfl : s' = x := by
    rcases hkey with hid | htoken
    · exact hd.eq_of_id hs' hx (hsame.id.trans hid.symm)
    · exact hd.eq_of_token hs' hx (hsame.refreshTokenHash.trans htoken.symm)
  rw [hlive] at hrevoked
  cases hrevoked

theorem grows_replay (base : Db env.Hash) (hs : log <:+ log') :
    Grows (replay base log) (replay base log') := by
  obtain ⟨front, rfl⟩ := hs
  induction front with
  | nil => exact .refl _
  | cons c front ih => exact ih.trans ((protocol base).le_applyAll c.writes _)

theorem Rotates.spent {rawToken : String} {s row : Session} {owner : Uuid} {t : ℕ}
    (h : Rotates env rawToken s owner row d) :
    Spent (applyAll (S := schema env) (rotation env s t row) d) s := by
  refine ⟨s.replaced t row.id, ?_, ⟨rfl, rfl, rfl, rfl, fun _ => rfl⟩, rfl⟩
  rw [sessions_rotation]
  refine List.mem_map.mpr ⟨s, List.mem_append_left _ h.mem, ?_⟩
  simp [Write.session]

theorem Revocations.replaced {ws : List (Write env.Hash)} (h : Revocations ws) :
    ws.filterMap Write.replacedId = [] := by
  apply List.filterMap_eq_nil_iff.mpr
  intro x hx
  obtain ⟨id, t, rfl⟩ := h x hx
  rfl

theorem Does.replaces (hc : Does c d) : c.writes.filterMap Write.replacedId = [] ∨
    ∃ rawToken s owner row t, c.writes = Auth.rotation env s t row ∧
      Rotates env rawToken s owner row d := by
  cases hc with
  | rotation _ hw h => exact .inr ⟨_, _, _, _, _, hw, h⟩
  | @account x _ hw hx =>
    rw [hw]
    cases x with
    | replace => cases hx
    | _ => exact .inl rfl
  | revocation _ hw => exact .inl hw.replaced
  | change _ _ hw hws _ =>
    rw [hw]
    exact .inl ((List.filterMap_cons_none rfl).trans hws.replaced)
  | rehash _ _ _ hw => rw [hw]; exact .inl rfl
  | login _ _ _ hw _ => rw [hw]; exact .inl rfl
  | adminLogin _ hw _ => rw [hw]; exact .inl rfl

variable (h₀ : Sound base.sessions)
include h₀

theorem sound_replay (hlog : Chronicle Does base log) :
    Sound (Db.sessions (replay (S := schema env) base log)) :=
  hlog.keeps (I := fun d : Db env.Hash => Sound d.sessions) h₀ fun _ _ hc hd => hc.sound hd

theorem replaced_once (hlog : Chronicle Does base log) : (replacements log).Nodup ∧
    ∀ id ∈ replacements log, ∃ s : Session, s.id = id ∧ Spent (replay base log) s := by
  induction log with
  | nil => exact ⟨.nil, fun _ hid => by cases hid⟩
  | cons c log ih =>
    obtain ⟨hnodup, hspent⟩ := ih hlog.2
    have hold (id : Uuid) (hid : id ∈ replacements log) :
        ∃ s : Session, s.id = id ∧ Spent (replay base (c :: log)) s := by
      obtain ⟨s, hs, hspent⟩ := hspent id hid
      exact ⟨s, hs, hspent.mono (grows_replay _ (List.suffix_cons c log))⟩
    have hcons : replacements (c :: log) = c.writes.filterMap Write.replacedId ++ replacements log :=
      List.flatMap_cons
    rw [hcons]
    rcases hlog.1.replaces with hnone | ⟨rawToken, s, owner, row, t, hw, hrotates⟩
    · rw [hnone, List.nil_append]
      exact ⟨hnodup, hold⟩
    · have hone : c.writes.filterMap Write.replacedId = [s.id] := by rw [hw]; rfl
      rw [hone]
      refine ⟨List.nodup_cons.mpr ⟨fun hmem => ?_, hnodup⟩, fun id hid => ?_⟩
      · obtain ⟨s', hid, hspent'⟩ := hspent s.id hmem
        exact hspent'.not_live (sound_replay h₀ hlog.2).toKeyed hrotates.mem (.inl hid.symm)
          hrotates.live
      · rcases List.mem_cons.mp hid with rfl | hid
        · refine ⟨s, rfl, ?_⟩
          rw [replay, hw]
          exact hrotates.spent
        · exact hold id hid

theorem rotated_once {rawToken : String} {tokens tokens' : AuthTokens}
    (hlog : Chronicle Does base older') (hs : (c :: older) <:+ older')
    (h : Rotated rawToken tokens c (replay base older))
    (h' : Rotated rawToken tokens' c' (replay base older')) : False := by
  obtain ⟨s, owner, row, t, -, -, hrotates, hw, -⟩ := h
  obtain ⟨s', owner', row', t', -, -, hrotates', -, -⟩ := h'
  have hspent : Spent (replay base (c :: older)) s := by
    rw [replay, hw]
    exact hrotates.spent
  exact (hspent.mono (grows_replay _ hs)).not_live (sound_replay h₀ hlog).toKeyed hrotates'.mem
    (.inr (hrotates'.token.trans hrotates.token.symm)) hrotates'.live

end Log

def AccessToken.IssuedTo (token : AccessToken) (s : Session) : Prop :=
  match token.aud with
  | .player => s.userId = some token.sub ∧ s.adminId = none
  | .admin => s.adminId = some token.sub ∧ s.userId = none

section Run

variable {env : Env} {K : Policy (schema env)} {base : Db env.Hash} {s : State (schema env)}

theorem Run.rotated (h : Run K base s) {i : ℕ} {p : Proc (schema env)} (hp : s.procs i = some p)
    {rawToken : String} (hcall : p.call.presents = some rawToken) {tokens : AuthTokens}
    (hr : p.prog.Ends (.ok (.refreshed tokens))) :
    Commits base i s.world (Rotated rawToken tokens) := by
  have hdone := h.done hp hr
  obtain ⟨call, prog, loc⟩ := p
  cases call with
  | refresh raw ip => cases hcall; exact hdone
  | adminRefresh raw ip => cases hcall; exact hdone
  | _ => cases hcall

theorem Rotates.issuedTo {d : Db env.Hash} {rawToken role : String} {x row : Session} {owner : Uuid}
    {jti : ℕ} {tokens : AuthTokens} (h : Rotates env rawToken x owner row d)
    (hone : x.userId.isSome ≠ x.adminId.isSome)
    (htokens : tokens = issue env row owner (audience x) role tokens.refreshToken jti) :
    tokens.accessToken.IssuedTo x := by
  obtain ⟨huser, hadmin⟩ := h.same_owner hone
  have haud : tokens.accessToken.aud = audience x := by rw [htokens]; rfl
  have hsub : tokens.accessToken.sub = owner := by rw [htokens]; rfl
  rw [h.creates.userId] at huser
  rw [h.creates.adminId] at hadmin
  unfold AccessToken.IssuedTo
  rw [haud, hsub, ← huser, ← hadmin]
  cases audience x with
  | player => exact ⟨rfl, rfl⟩
  | admin => exact ⟨rfl, rfl⟩

theorem Run.issued (h : Run K base s) (h₀ : Sound base.sessions) {i : ℕ} {p : Proc (schema env)}
    (hp : s.procs i = some p) {rawToken : String} (hcall : p.call.presents = some rawToken)
    {tokens : AuthTokens} (hr : p.prog.Ends (.ok (.refreshed tokens))) :
    ∃ x ∈ s.world.db.sessions,
      x.refreshTokenHash = env.hashToken rawToken ∧ tokens.accessToken.IssuedTo x := by
  obtain ⟨c, older, -, hs, x, owner, row, t, role, jti, hrotates, hw, htokens⟩ :=
    h.rotated hp hcall hr
  have hsound := sound_replay h₀ (h.chronicle.suffix hs).2
  have hissued := hrotates.issuedTo (hsound.owner x hrotates.mem) htokens
  have hgrows : Grows (replay base older) s.world.db :=
    h.db_eq ▸ grows_replay _ ((List.suffix_cons c older).trans hs)
  obtain ⟨x', hx', hsame⟩ := hgrows x hrotates.mem
  refine ⟨x', hx', hsame.refreshTokenHash.trans hrotates.token, ?_⟩
  unfold AccessToken.IssuedTo at hissued ⊢
  rw [hsame.userId, hsame.adminId]
  exact hissued

theorem Run.one_winner (h : Run K base s) (h₀ : Sound base.sessions) {i j : ℕ}
    {p q : Proc (schema env)} (hp : s.procs i = some p) (hq : s.procs j = some q) {rawToken : String}
    (hcall : p.call.presents = some rawToken) (hcall' : q.call.presents = some rawToken)
    {tokens tokens' : AuthTokens} (hr : p.prog.Ends (.ok (.refreshed tokens)))
    (hr' : q.prog.Ends (.ok (.refreshed tokens'))) : i = j := by
  have hlog := h.chronicle
  obtain ⟨c, older, hown, hs, hrotated⟩ := h.rotated hp hcall hr
  obtain ⟨c', older', hown', hs', hrotated'⟩ := h.rotated hq hcall' hr'
  have hi : c.proc = i := (mem_own.mp (hown ▸ List.mem_singleton_self c)).2
  have hj : c'.proc = j := (mem_own.mp (hown' ▸ List.mem_singleton_self c')).2
  by_contra hij
  have hne : c :: older ≠ c' :: older' := by
    intro heq
    obtain ⟨rfl, -⟩ := List.cons.inj heq
    exact hij (hi.symm.trans hj)
  rcases suffix_apart hs hs' hne with hle | hle
  · exact rotated_once h₀ (hlog.suffix hs').2 hle hrotated hrotated'
  · exact rotated_once h₀ (hlog.suffix hs).2 hle hrotated' hrotated

theorem rotation_of_run (h : Run K base s) (h₀ : Sound base.sessions) :
    Sound s.world.db.sessions ∧ (replacements s.world.log).Nodup ∧
    (∀ i p rawToken tokens, s.procs i = some p → p.call.presents = some rawToken →
      p.prog.Ends (.ok (.refreshed tokens)) → ∃ x ∈ s.world.db.sessions,
        x.refreshTokenHash = env.hashToken rawToken ∧ tokens.accessToken.IssuedTo x) ∧
    ∀ i j p q rawToken tokens tokens', s.procs i = some p → s.procs j = some q →
      p.call.presents = some rawToken → q.call.presents = some rawToken →
      p.prog.Ends (.ok (.refreshed tokens)) → q.prog.Ends (.ok (.refreshed tokens')) → i = j := by
  refine ⟨?_, (replaced_once h₀ h.chronicle).1, ?_, ?_⟩
  · rw [h.db_eq]
    exact sound_replay h₀ h.chronicle
  · exact fun i p rawToken tokens hp hcall hr => h.issued h₀ hp hcall hr
  · exact fun i j p q rawToken tokens tokens' hp hq hcall hcall' hr hr' =>
      h.one_winner h₀ hp hq hcall hcall' hr hr'

end Run

/-- The flag of a hash says whether it is made with the current parameters. -/
def sampleEnv : Env where
  Hash := Bool × String
  hash password _ := (true, password)
  verify h password := h.2 = password
  needsRehash h := !h.1
  hashToken := id
  jwtIssuer := "jito-game"
  jwtAccessTtlSeconds := 900
  jwtRefreshTtlSeconds := 2592000

abbrev sampleSchema : Schema := schema sampleEnv

def alice (current : Bool) : User sampleEnv.Hash :=
  ⟨.ofNat 1, "alice", none, none, (current, "secret"), none, .active, 0, none, none, 0⟩

def aliceSession (n : ℕ) (token : String) : Session :=
  ⟨.ofNat n, some (.ofNat 1), none, token, none, none, 1000, none, none⟩

def signedIn : Db sampleEnv.Hash := ⟨[alice true], [], [], [aliceSession 2 "a"]⟩

theorem known_signedIn : ∀ x, signedIn.Known x → x ∈ [Uuid.ofNat 2] := by
  rintro x ⟨s, hs, rfl⟩
  obtain rfl := List.mem_singleton.mp hs
  exact List.mem_singleton_self _

theorem sound_signedIn : Sound signedIn.sessions := by
  refine Sound.nil.append ⟨by decide, by decide, fun s hs => ?_⟩ rfl
  obtain rfl := List.mem_singleton.mp hs
  exact nofun

def rotateRun (i id random : ℕ) : List (Label sampleSchema) :=
  [.input i random, .input i 0, .run i, .mint i (.ofNat id), .run i, .input i 0, .input i 0, .run i]

def raceRun : List (Label sampleSchema) :=
  [.spawn 0 (.refresh "a" "ip"), .spawn 1 (.refresh "a" "ip"), .run 0, .run 1, .run 0, .input 0 0] ++
    rotateRun 0 3 7 ++ [.run 0, .run 1, .input 1 0, .input 1 0, .run 1, .run 1, .run 1]

theorem rotation_after_race :
    ∃ s, (Policy.calls fun _ => True).steps (body sampleEnv) (initial signedIn [Uuid.ofNat 2]) raceRun =
        some s ∧
      s.world.db.sessions.map (fun x => (x.id, x.revokedAt, x.replacedBySessionId)) =
        [(.ofNat 2, some 0, some (.ofNat 3)), (.ofNat 3, some 0, none)] ∧
      Sound s.world.db.sessions ∧ (replacements s.world.log).Nodup := by
  have hrun : ((Policy.calls fun _ => True).steps (body sampleEnv) (initial signedIn [Uuid.ofNat 2])
      raceRun).map (fun s => s.world.db.sessions.map fun x =>
        (x.id, x.revokedAt, x.replacedBySessionId)) =
      some [(.ofNat 2, some 0, some (.ofNat 3)), (.ofNat 3, some 0, none)] := by decide
  obtain ⟨s, hs, hsessions⟩ := Option.map_eq_some_iff.mp hrun
  have hrotation := rotation_of_run (.steps known_signedIn hs) sound_signedIn
  exact ⟨s, hs, hsessions, hrotation.1, hrotation.2.1⟩

end JitoGame.Auth
