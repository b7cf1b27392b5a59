import JitoGame.Auth.Revocation

namespace JitoGame.Auth

open Transactions AuthService

def Call.changesPassword (userId : Option Uuid) : Call → Bool
  | .changePassword id _ => userId = some id
  | _ => false

section Stored

variable {Hash : Type}

def hashOf (d : Db Hash) (userId : Uuid) : Option Hash := (d.userById userId).map (·.passwordHash)

def Write.password (userId : Uuid) : Write Hash → Option Hash
  | .setPasswordHash id h => if id = userId then some h else none
  | _ => none

variable {env : Env} {base d : Db env.Hash} {ws : List (Write env.Hash)} {userId : Uuid}

theorem hashOf_apply (x : Write env.Hash) (d : Db env.Hash) (userId : Uuid) :
    hashOf (x.apply d) userId = (hashOf d userId).map fun h => (x.password userId).getD h := by
  rw [hashOf, userById_apply, hashOf]
  cases hu : d.userById userId with
  | none => rfl
  | some u =>
    have hid : u.id = userId := by simpa using List.find?_some hu
    cases x with
    | setPasswordHash j h =>
      by_cases hj : j = userId
      · simp [Write.user, Write.password, hid, hj]
      · have hne : userId ≠ j := fun heq => hj heq.symm
        simp [Write.user, Write.password, hid, hj, hne]
    | resetFailures j t => simp only [Write.user, Write.password, Option.map_some]; split <;> rfl
    | failLogin j n t => simp only [Write.user, Write.password, Option.map_some]; split <;> rfl
    | _ => rfl

theorem hashOf_kept (h : ∀ x ∈ ws, x.password userId = none) :
    hashOf (applyAll (S := schema env) ws d) userId = hashOf d userId := by
  induction ws generalizing d with
  | nil => rfl
  | cons x ws ih =>
    rw [applyAll_cons, ih (fun y hy => h y (List.mem_cons_of_mem _ hy)), hashOf_apply,
      h x List.mem_cons_self]
    simp

theorem hashOf_set (hu : (d.userById userId).isSome = true) {h : env.Hash}
    (hws : ∀ x ∈ ws, x.password userId = none) :
    hashOf (applyAll (S := schema env) (.setPasswordHash userId h :: ws) d) userId = some h := by
  obtain ⟨u, hu⟩ := Option.isSome_iff_exists.mp hu
  rw [applyAll_cons, hashOf_kept hws, hashOf_apply, hashOf, hu]
  simp [Write.password]

theorem Revocations.password (h : Revocations ws) : ∀ x ∈ ws, x.password userId = none := by
  intro x hx
  obtain ⟨id, t, rfl⟩ := h x hx
  rfl

theorem Does.password {c : Commit (schema env)} (hc : Does c d) (userId : Uuid) :
    (∀ x ∈ c.writes, x.password userId = none) ∨
    (∃ dto ip userAgent salt, c.call = .login dto ip userAgent ∧
      c.writes = [.setPasswordHash userId (env.hash dto.password salt)]) ∨
    c.call.changesPassword (some userId) = true := by
  cases hc with
  | @rehash dto ip userAgent u m salt hcall _ _ hw =>
    by_cases hid : u.id = userId
    · exact .inr (.inl ⟨dto, ip, userAgent, salt, hcall, hid ▸ hw⟩)
    · rw [hw]
      exact .inl (List.forall_mem_singleton.mpr (if_neg hid))
  | @account x _ hw hx =>
    rw [hw]
    refine .inl (List.forall_mem_singleton.mpr ?_)
    cases x with
    | setPasswordHash => cases hx
    | _ => rfl
  | login _ _ _ hw _ => rw [hw]; exact .inl (List.forall_mem_singleton.mpr rfl)
  | adminLogin _ hw _ => rw [hw]; exact .inl (List.forall_mem_singleton.mpr rfl)
  | rotation _ hw _ =>
    rw [hw]
    exact .inl (List.forall_mem_cons.mpr ⟨rfl, List.forall_mem_singleton.mpr rfl⟩)
  | revocation _ hw => exact .inl hw.password
  | @change id dto salt ws m hcall _ hw hws _ =>
    by_cases hid : id = userId
    · rw [hcall]
      exact .inr (.inr (decide_eq_true (congrArg some hid.symm)))
    · rw [hw]
      exact .inl (List.forall_mem_cons.mpr ⟨if_neg hid, hws.password⟩)

theorem Does.changed {c : Commit (schema env)} {d : Db env.Hash} (h : Does c d) {userId : Uuid}
    (hc : c.call.changesPassword (some userId) = true) :
    ∃ dto salt ws m, c.call = .changePassword userId dto ∧
      c.writes = .setPasswordHash userId (env.hash dto.newPassword salt) :: ws ∧ Revocations ws ∧
      Sweeps (ownedLive userId false) m c.writes c.trace d ∧ (d.userById userId).isSome = true := by
  obtain ⟨dto, hcall⟩ : ∃ dto, c.call = .changePassword userId dto := by
    cases hcall : c.call with
    | changePassword id dto =>
      rw [hcall] at hc
      obtain rfl : userId = id := Option.some.inj (of_decide_eq_true hc)
      exact ⟨dto, rfl⟩
    | _ => rw [hcall] at hc; cases hc
  have hne {p : Prop} (h : c.call.isChangePassword = false) : p := by
    rw [hcall] at h
    cases h
  cases h with
  | @change _ _ salt ws m hcall' hu hw hws hsweep =>
    cases hcall.symm.trans hcall'
    exact ⟨dto, salt, ws, m, hcall, hw, hws, hsweep, hu⟩
  | account hc => exact hne hc
  | revocation hc => exact hne hc
  | rehash hc => cases hcall.symm.trans hc
  | login hc => cases hcall.symm.trans hc
  | adminLogin hc => cases hcall.symm.trans hc
  | rotation hc => exact hne (Call.not_change hc)

end Stored

section Run

variable {env : Env} {base : Db env.Hash} {s : State (schema env)} {userId : Uuid}

def Opens (env : Env) (d : Db env.Hash) (userId : Uuid) (password : String) : Prop :=
  ∃ h, hashOf d userId = some h ∧ ∀ q, env.verify h q = true ↔ q = password

def Lasts (s : State (schema env)) : Prop :=
  ∀ newer c older userId dto, s.world.log = newer ++ c :: older →
    c.call = .changePassword userId dto →
    (∀ c' ∈ newer, c'.call.changesPassword (some userId) = false) →
      Opens env s.world.db userId dto.newPassword

/-- Once a password was changed, a login that stores a hash of its own password meets one that this
password verifies. -/
def rehashesStored (c : Commit (schema env)) (d : Db env.Hash) (older : List (Commit (schema env))) :
    Bool :=
  match c.call with
  | .login dto _ _ => c.writes.all fun
    | .setPasswordHash id _ => (older.any fun c' => c'.call.changesPassword (some id)) →
        (hashOf d id).all fun h => env.verify h dto.password
    | _ => true
  | _ => true

def carefulRehash (env : Env) : Policy (schema env) :=
  ⟨fun _ => True, fun _ _ => True, fun c d older => rehashesStored c d older = true, fun _ => True⟩

theorem opens_set {d : Db env.Hash} (hverify : ∀ p n q, env.verify (env.hash p n) q = true ↔ p = q)
    {password : String} {salt : ℕ} {ws : List (Write env.Hash)}
    (hu : (d.userById userId).isSome = true) (hws : ∀ x ∈ ws, x.password userId = none) :
    Opens env (applyAll (S := schema env) (.setPasswordHash userId (env.hash password salt) :: ws) d)
      userId password :=
  ⟨_, hashOf_set hu hws, fun q => (hverify password salt q).trans eq_comm⟩

theorem Opens.commit (hverify : ∀ p n q, env.verify (env.hash p n) q = true ↔ p = q)
    {d : Db env.Hash} {password : String} (h : Opens env d userId password) {c : Commit (schema env)}
    {older : List (Commit (schema env))} (hc : Does c d)
    (hother : c.call.changesPassword (some userId) = false)
    (hchanged : ∃ c' ∈ older, c'.call.changesPassword (some userId) = true)
    (hok : rehashesStored c d older = true) :
    Opens env (applyAll (S := schema env) c.writes d) userId password := by
  obtain ⟨stored, hstored, hopens⟩ := h
  rcases hc.password userId with hnone | ⟨dto, ip, userAgent, salt, hcall, hw⟩ | hchange
  · exact ⟨stored, (hashOf_kept hnone).trans hstored, hopens⟩
  · obtain ⟨c', hc', hchange⟩ := hchanged
    have hpassword : ∀ x ∈ older, x.call.changesPassword (some userId) = true →
        env.verify stored dto.password = true := by
      simpa [rehashesStored, hcall, hw, hstored] using hok
    have hsame : dto.password = password := (hopens dto.password).mp (hpassword c' hc' hchange)
    have hu : (d.userById userId).isSome = true := by
      obtain ⟨u, hu, -⟩ := Option.map_eq_some_iff.mp hstored
      rw [hu]
      rfl
    rw [hw, hsame]
    exact opens_set hverify hu fun _ hx => by cases hx
  · rw [hother] at hchange
    cases hchange

theorem Run.opens {K : Policy (schema env)} (h : Run K base s)
    (hverify : ∀ p n q, env.verify (env.hash p n) q = true ↔ p = q)
    (hK : ∀ c d older, K.commit c d older → rehashesStored c d older = true)
    {newer older : List (Commit (schema env))} {c : Commit (schema env)} {dto : ChangePasswordDto}
    (hs : (newer ++ c :: older) <:+ s.world.log) (hcall : c.call = .changePassword userId dto)
    (hnewer : ∀ c' ∈ newer, c'.call.changesPassword (some userId) = false) :
    Opens env (replay base (newer ++ c :: older)) userId dto.newPassword := by
  have hchanges : c.call.changesPassword (some userId) = true := by
    rw [hcall]
    exact decide_eq_true rfl
  have hchron := h.chronicle.suffix hs
  induction newer with
  | nil =>
    obtain ⟨dto', salt, ws, m, hcall', hw, hws, -, hu⟩ := hchron.1.changed hchanges
    cases hcall.symm.trans hcall'
    change Opens env (applyAll c.writes (replay base older)) userId dto.newPassword
    rw [hw]
    exact opens_set hverify hu hws.password
  | cons c' newer ih =>
    have hopens := ih ((List.suffix_cons c' _).trans hs)
      (fun x hx => hnewer x (List.mem_cons_of_mem _ hx)) hchron.2
    have hchanged : ∃ x ∈ newer ++ c :: older, x.call.changesPassword (some userId) = true :=
      ⟨c, by simp, hchanges⟩
    exact hopens.commit hverify hchron.1 (hnewer c' List.mem_cons_self) hchanged
      (hK c' _ _ (h.obeys.log c' _ hs).commit)

theorem lasts_of_run (hverify : ∀ p n q, env.verify (env.hash p n) q = true ↔ p = q)
    (h : Run (carefulRehash env) base s) : Lasts s := by
  intro newer c older userId dto hlog hcall hnewer
  have hs : (newer ++ c :: older) <:+ s.world.log := hlog ▸ List.suffix_refl _
  rw [h.db_eq, hlog]
  exact h.opens hverify (fun _ _ _ hok => hok) hs hcall hnewer

end Run

instance : DecidablePred (carefulRehash sampleEnv).spawn := fun _ => isTrue trivial

instance (c : Call) : DecidablePred ((carefulRehash sampleEnv).stmt c) := fun _ => isTrue trivial

instance (c : Commit sampleSchema) (d : Db sampleEnv.Hash) :
    DecidablePred ((carefulRehash sampleEnv).commit c d) := fun older =>
  inferInstanceAs (Decidable (rehashesStored c d older = true))

instance : DecidablePred (carefulRehash sampleEnv).fault := fun _ => isTrue trivial

def signedOut (current : Bool) : Db sampleEnv.Hash := ⟨[alice current], [], [], []⟩

theorem known_signedOut (current : Bool) : ∀ x, (signedOut current).Known x → x ∈ ([] : List Uuid) := by
  rintro x ⟨s, hs, -⟩
  cases hs

def secret : LoginDto := ⟨"alice", "secret"⟩

def readRun (i : ℕ) : List (Label sampleSchema) :=
  [.spawn i (.login secret "ip" none), .input i 1, .input i 1, .run i, .input i 0]

def changeRun (i sessions : ℕ) : List (Label sampleSchema) :=
  [.spawn i (.changePassword (.ofNat 1) ⟨"secret", "other"⟩), .run i, .input i 0, .input i 5, .run i,
    .run i, .run i] ++ List.replicate sessions (.run i) ++ [.run i]

theorem verify_sampleEnv (p : String) (n : ℕ) (q : String) :
    sampleEnv.verify (sampleEnv.hash p n) q = true ↔ p = q := by
  simp [sampleEnv]

def rehashRun (i : ℕ) : List (Label sampleSchema) := [.input i 0, .run i, .run i, .run i]

theorem lasts_after_change :
    ∃ s, (carefulRehash sampleEnv).steps (body sampleEnv) (initial (signedOut false) [])
        (readRun 0 ++ rehashRun 0 ++ changeRun 1 0) = some s ∧
      s.world.log.map (fun c => c.call) =
        [.changePassword (.ofNat 1) ⟨"secret", "other"⟩, .login secret "ip" none] ∧
      Lasts s := by
  have hrun : ((carefulRehash sampleEnv).steps (body sampleEnv) (initial (signedOut false) [])
      (readRun 0 ++ rehashRun 0 ++ changeRun 1 0)).map (fun s => s.world.log.map fun c => c.call) =
      some [.changePassword (.ofNat 1) ⟨"secret", "other"⟩, .login secret "ip" none] := by decide
  obtain ⟨s, hs, hlog⟩ := Option.map_eq_some_iff.mp hrun
  exact ⟨s, hs, hlog, lasts_of_run verify_sampleEnv (.steps (known_signedOut false) hs)⟩

/-- Process 0 reads the password before process 1 changes it, and then re-hashes it. -/
def undoneRun : List (Label sampleSchema) := readRun 0 ++ changeRun 1 0 ++ rehashRun 0

def undone (s : State sampleSchema) : Bool :=
  s.world.log.map (fun c => c.call) =
    [.login secret "ip" none, .changePassword (.ofNat 1) ⟨"secret", "other"⟩] ∧
  (hashOf s.world.db (.ofNat 1)).any fun h => sampleEnv.verify h "secret"

theorem rehash_undoes_change :
    ∃ s, Run (Policy.calls fun _ => True) (signedOut false) s ∧ ¬ Lasts s := by
  have hrun : ((Policy.calls fun _ => True).steps (body sampleEnv) (initial (signedOut false) [])
      undoneRun).map undone = some true := by decide
  obtain ⟨s, hs, hundone⟩ := Option.map_eq_some_iff.mp hrun
  obtain ⟨hcalls, hhash⟩ := of_decide_eq_true hundone
  refine ⟨s, .steps (known_signedOut false) hs, fun hall => ?_⟩
  obtain ⟨c', c, hlog⟩ := List.length_eq_two.mp (by simpa using congrArg List.length hcalls)
  rw [hlog] at hcalls
  simp only [List.map_cons, List.cons.injEq] at hcalls
  obtain ⟨h, hstored, hopens⟩ := hall [c'] c [] (.ofNat 1) ⟨"secret", "other"⟩ hlog hcalls.2.1
    fun x hx => by rw [List.mem_singleton.mp hx, hcalls.1]; rfl
  have hverify : sampleEnv.verify h "secret" = true := by simpa [hstored] using hhash
  exact absurd ((hopens "secret").mp hverify) (by decide)

end JitoGame.Auth
