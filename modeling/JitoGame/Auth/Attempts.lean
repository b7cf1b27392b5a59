import JitoGame.Auth.Verified

namespace JitoGame.Auth

open Transactions AuthService

section Writes

variable {Hash : Type}

def Write.failureOf : Write Hash → Option Uuid
  | .failLogin userId _ _ => some userId
  | _ => none

def Write.lockoutOf : Write Hash → Option Uuid
  | .failLogin userId _ (some _) => some userId
  | _ => none

def Write.successOf : Write Hash → Option Uuid
  | .resetFailures userId _ => some userId
  | _ => none

def Uncounted (ws : List (Write Hash)) : Prop := ∀ x ∈ ws, x.failureOf = none ∧ x.successOf = none

theorem uncounted_nil : Uncounted ([] : List (Write Hash)) := fun _ hx => by cases hx

theorem Uncounted.cons {x : Write Hash} {ws : List (Write Hash)} (h : Uncounted ws)
    (hf : x.failureOf = none) (hs : x.successOf = none) : Uncounted (x :: ws) := by
  intro y hy
  rcases List.mem_cons.mp hy with rfl | hy
  · exact ⟨hf, hs⟩
  · exact h y hy

end Writes

variable {env : Env}

def fails (userId : Uuid) (c : Commit (schema env)) : Bool :=
  c.writes.any fun x => x.failureOf = some userId

def locksOut (userId : Uuid) (c : Commit (schema env)) : Bool :=
  c.writes.any fun x => x.lockoutOf = some userId

def succeeds (userId : Uuid) (c : Commit (schema env)) : Bool :=
  c.writes.any fun x => x.successOf = some userId

structure Tallied (c : Commit (schema env)) (d : Db env.Hash) : Prop where
  failure : ∀ userId, fails userId c = true → ∃ dto ip userAgent m u nowMs,
    c.call = .login dto ip userAgent ∧ m ∈ c.trace ∧ Mistakes env dto u m ∧ u.id = userId ∧
      c.writes = failedLogin u nowMs
  success : ∀ userId, succeeds userId c = true → ∃ dto ip userAgent m u t,
    c.call = .login dto ip userAgent ∧ m ∈ c.trace ∧ Authenticates env dto u m ∧ u.id = userId ∧
      c.writes = [.resetFailures userId t]

def tally (base : Db env.Hash) : Protocol (schema env) := discipline base Tallied

theorem Uncounted.tallied {com : Commit (schema env)} {d : Db env.Hash} (h : Uncounted com.writes) :
    Tallied com d := by
  constructor
  · intro userId hf
    obtain ⟨x, hx, hid⟩ := List.any_eq_true.mp hf
    rw [(h x hx).1] at hid
    simp at hid
  · intro userId hs
    obtain ⟨x, hx, hid⟩ := List.any_eq_true.mp hs
    rw [(h x hx).2] at hid
    simp at hid

theorem Revocations.uncounted {ws : List (Write env.Hash)} (h : Revocations ws) : Uncounted ws := by
  intro x hx
  obtain ⟨id, t, rfl⟩ := h x hx
  exact ⟨rfl, rfl⟩

theorem tallied_login {dto : LoginDto} {ip : String} {userAgent : Option String} :
    LoginSpec (Tallied : Commit (schema env) → Db env.Hash → Prop) (.login dto ip userAgent) dto where
  rehash _ _ _ _ _ _ _ _ hw := Uncounted.tallied (hw ▸ uncounted_nil.cons rfl rfl)
  failure com d m u nowMs hcall hm hu hw := by
    constructor
    · intro userId hf
      have hid : u.id = userId := by simpa [fails, hw, failedLogin, Write.failureOf] using hf
      exact ⟨dto, ip, userAgent, m, u, nowMs, hcall, hm, hu, hid, hw⟩
    · intro userId hs
      simp [succeeds, hw, failedLogin, Write.successOf] at hs
  reset com d m u lastLoginAt hcall hm hu hw := by
    constructor
    · intro userId hf
      simp [fails, hw, Write.failureOf] at hf
    · intro userId hs
      have hid : u.id = userId := by simpa [succeeds, hw, Write.successOf] using hs
      exact ⟨dto, ip, userAgent, m, u, lastLoginAt, hcall, hm, hu, hid, hid ▸ hw⟩
  session _ _ _ _ _ _ _ _ hw _ := Uncounted.tallied (hw ▸ uncounted_nil.cons rfl rfl)

theorem tallied_revocation (com : Commit (schema env)) (d : Db env.Hash)
    (h : Revocations com.writes) : Tallied com d := Uncounted.tallied h.uncounted

theorem tallied_refresh {c : Call} {rawToken : String} :
    RefreshSpec (Tallied : Commit (schema env) → Db env.Hash → Prop) c rawToken where
  rotation _ _ _ _ _ _ _ hw _ :=
    Uncounted.tallied (hw ▸ (uncounted_nil.cons rfl rfl).cons rfl rfl)
  revocation com d _ h := tallied_revocation com d h

theorem tallied (base : Db env.Hash) (allowed : Call → Prop) :
    Verified (tally base) (body env) allowed (fun _ _ _ _ _ => True) := by
  intro i call w _ _ hown
  cases call with
  | login dto ip userAgent =>
    exact wp_login (fun u m _ => tallied_login.steps u m) rfl fun _ _ _ _ _ _ _ _ _ => trivial
  | adminLogin dto ip userAgent =>
    refine wp_adminLogin rfl (fun com d _ _ row _ _ _ hw _ => ?_) (fun com d _ _ _ hw => ?_)
      fun _ _ _ _ _ _ _ _ _ => trivial
    · exact Uncounted.tallied (hw ▸ uncounted_nil.cons rfl rfl)
    · exact Uncounted.tallied (hw ▸ uncounted_nil.cons rfl rfl)
  | refresh rawToken ip =>
    exact wp_mono _ (wp_refresh tallied_refresh rfl hown) (fun _ _ _ _ => trivial)
      fun _ _ _ _ => trivial
  | adminRefresh rawToken ip =>
    exact wp_mono _ (wp_refresh tallied_refresh rfl hown) (fun _ _ _ _ => trivial)
      fun _ _ _ _ => trivial
  | logout sessionId owner isAdmin =>
    exact wp_mono _ (wp_logout (fun com d _ h => tallied_revocation com d h) rfl) (fun _ _ _ _ => trivial)
      fun _ _ _ h => h
  | logoutAll userId =>
    exact wp_mono _ (wp_logoutAll (fun com d _ h => tallied_revocation com d h) rfl hown)
      (fun _ _ _ _ => trivial) fun _ _ _ h => h
  | changePassword userId dto =>
    refine wp_mono _ (wp_changePassword (fun com d _ ws _ _ _ hw hws _ => ?_) rfl)
      (fun _ _ _ _ => trivial) fun _ _ _ h => h
    exact Uncounted.tallied (hw ▸ hws.uncounted.cons rfl rfl)

theorem Run.tallies {K : Policy (schema env)} {base : Db env.Hash} {s : State (schema env)}
    (h : Run K base s) : Chronicle Tallied base s.world.log :=
  (Transactions.Run.invariant (P := tally base) (tallied base K.spawn) h).ok.chronicle

end JitoGame.Auth
