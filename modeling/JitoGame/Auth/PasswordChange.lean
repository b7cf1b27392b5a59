import JitoGame.Auth.PasswordHash

namespace JitoGame.Auth

open Transactions AuthService

def Call.isLogin : Call → Bool
  | .login .. => true
  | _ => false

section Log

variable {env : Env} {base : Db env.Hash} {log : List (Commit (schema env))}

structure OnOldPassword (older : List (Commit (schema env))) (newPassword : String) (row : Session)
    (c : Commit (schema env)) : Prop where
  login : c.call.isLogin = true
  inserts : .insertSession row ∈ c.writes
  read : ∃ dto u m, m ∈ c.trace ∧ Authenticates env dto u m ∧ row.userId = some u.id ∧
    (m.index ≤ older.length ∨ dto.password ≠ newPassword)

def ShutOut (base : Db env.Hash) (s : State (schema env)) : Prop :=
  ∀ newer c older userId dto, s.world.log = newer ++ c :: older →
    c.call = .changePassword userId dto →
    (∀ c' ∈ newer, c'.call.changesPassword (some userId) = false) →
    ∀ row, row.userId = some userId →
      (row ∈ base.sessions ∨ ∃ c' ∈ s.world.log, OnOldPassword older dto.newPassword row c') →
        ∀ z ∈ s.world.db.sessions, z.id = row.id → z.revokedAt.isSome = true

/-- No change of the password is committed between the read of a login and its session, no login
stores a session between the snapshot of a change and its commit, and re-hashes are of the stored
password. -/
def undisturbed (env : Env) : Policy (schema env) :=
  ⟨fun _ => True, fun _ _ => True,
    fun c d older => rehashesStored c d older = true ∧ ∀ m ∈ c.trace, ∀ c' ∈ m.since older,
      (c.call.isLogin = true → m.tag = .findUser → ∀ row ∈ c.writes.flatMap Write.newSessions,
        c'.call.changesPassword row.userId = false) ∧
      (m.tag = .findSessions → c'.call.isLogin = true →
        ∀ row ∈ c'.writes.flatMap Write.newSessions, c.call.changesPassword row.userId = false),
    fun _ => True⟩

theorem mem_newSessions {ws : List (Write env.Hash)} {row : Session} (h : .insertSession row ∈ ws) :
    row ∈ ws.flatMap Write.newSessions :=
  List.mem_flatMap.mpr ⟨_, h, List.mem_singleton_self row⟩

theorem session_inserted {ws : List (Write env.Hash)} {row : Session} (h : .insertSession row ∈ ws)
    (d : Db env.Hash) : ∃ x ∈ Db.sessions (applyAll (S := schema env) ws d), row.Same x := by
  induction ws generalizing d with
  | nil => cases h
  | cons y ws ih =>
    rcases List.mem_cons.mp h with rfl | h
    · have hmem : row ∈ ((Write.insertSession row).apply d).sessions :=
        mem_sessions_apply.mpr (.inr (List.mem_singleton_self row))
      exact (protocol d).le_applyAll ws _ row hmem
    · exact ih h (y.apply d)

theorem Sweeps.revokes {userId : Uuid} {ws : List (Write env.Hash)} {d : Db env.Hash}
    {trace : List (Mark (schema env))} {m : Mark (schema env)}
    (h : Sweeps (ownedLive userId false) m ws trace d) (hws : ws.filterMap Write.replacedId = [])
    (hle : Grows m.db d) {x : Session} (hx : x ∈ m.db.sessions) (howner : x.userId = some userId) :
    ∃ z ∈ Db.sessions (applyAll (S := schema env) ws d), x.Same z ∧ z.revokedAt.isSome = true := by
  cases hlive : x.revokedAt with
  | some t =>
    obtain ⟨z, hz, hsame⟩ := (hle.trans ((protocol d).le_applyAll ws d)) x hx
    exact ⟨z, hz, hsame, hsame.revoked (by rw [hlive]; rfl)⟩
  | none =>
    have hwanted : ownedLive userId false x = true := by simp [ownedLive, howner, hlive]
    obtain ⟨-, -, -, -, y, -, hsame, z, hz, hsame', -, hrevoked⟩ := h.leaves hws hx hwanted
    exact ⟨z, hz, hsame.trans hsame', hrevoked⟩

theorem userIds_replay (base : Db env.Hash) (log : List (Commit (schema env))) :
    (Db.users (replay base log)).map (·.id) = base.users.map (·.id) := by
  have hws (ws : List (Write env.Hash)) (d : Db env.Hash) :
      (Db.users (applyAll (S := schema env) ws d)).map (·.id) = d.users.map (·.id) := by
    induction ws generalizing d with
    | nil => rfl
    | cons x ws ih =>
      rw [applyAll_cons, ih]
      simp only [Write.apply, List.map_map, Function.comp_def, Write.user_id]
  induction log with
  | nil => rfl
  | cons c log ih => exact (hws c.writes _).trans ih

theorem userById_of_mem {d : Db env.Hash} (hd : (d.users.map (·.id)).Nodup) {u : User env.Hash}
    (hu : u ∈ d.users) : d.userById u.id = some u := by
  have hfound : (d.userById u.id).isSome = true :=
    List.find?_isSome.mpr ⟨u, hu, decide_eq_true rfl⟩
  obtain ⟨v, hv⟩ := Option.isSome_iff_exists.mp hfound
  have hid : v.id = u.id := by simpa using List.find?_some hv
  rw [hv, List.inj_on_of_nodup_map hd (List.mem_of_find?_eq_some hv) hu hid]

theorem Authenticates.password_eq {loginDto : LoginDto} {u : User env.Hash} {m : Mark (schema env)}
    (h : Authenticates env loginDto u m) (hids : (m.db.users.map (·.id)).Nodup) {password : String}
    (hopens : Opens env m.db u.id password) : loginDto.password = password := by
  obtain ⟨stored, hstored, hall⟩ := hopens
  have hu : u ∈ m.db.users := List.mem_of_find?_eq_some h.user
  have heq : some u.passwordHash = some stored := by
    rw [← hstored, hashOf, userById_of_mem hids hu]
    rfl
  apply (hall loginDto.password).mp
  rw [← Option.some.inj heq]
  exact h.password

end Log

section Run

variable {env : Env} {base : Db env.Hash} {s : State (schema env)}
variable {c c' : Commit (schema env)} {older older' : List (Commit (schema env))}

theorem Run.mem_snapshot (h : Run (undisturbed env) base s) (hs : (c :: older) <:+ s.world.log)
    {m : Mark (schema env)} (hm : m ∈ c.trace) (htag : m.tag = .findSessions) {row : Session}
    (hc : c.call.changesPassword row.userId = true) (hrow : row ∈ base.sessions ∨
      ∃ c' older', (c' :: older') <:+ older ∧ c'.call.isLogin = true ∧ .insertSession row ∈ c'.writes) :
    ∃ x ∈ m.db.sessions, row.Same x := by
  have hobeys := h.obeys.log c older hs
  obtain ⟨seen, hseen, hlen, hdb⟩ := (hobeys.marks m hm).seen
  rcases hrow with hbase | ⟨c', older', hs', hlogin, hinsert⟩
  · obtain ⟨x, hx, hsame⟩ := grows_replay base (List.nil_suffix (l := seen)) row hbase
    exact ⟨x, hdb ▸ hx, hsame⟩
  · have hlater : older'.length < seen.length := by
      by_contra hle
      have hsince : c' ∈ m.since older := Mark.mem_since hs' (by omega)
      have hfalse := (hobeys.commit.2 m hm c' hsince).2 htag hlogin row (mem_newSessions hinsert)
      rw [hc] at hfalse
      cases hfalse
    have hin : (c' :: older') <:+ seen := List.suffix_of_suffix_length_le hs' hseen hlater
    obtain ⟨x, hx, hsame⟩ := session_inserted hinsert (replay base older')
    obtain ⟨y, hy, hsame'⟩ := grows_replay base hin x hx
    exact ⟨y, hdb ▸ hy, hsame.trans hsame'⟩

theorem Run.reads_new (h : Run (undisturbed env) base s)
    (hverify : ∀ p n q, env.verify (env.hash p n) q = true ↔ p = q)
    (hids : (base.users.map (·.id)).Nodup) {newer : List (Commit (schema env))} {userId : Uuid}
    {dto : ChangePasswordDto} (hlog : s.world.log = newer ++ c :: older)
    (hcall : c.call = .changePassword userId dto)
    (hnewer : ∀ x ∈ newer, x.call.changesPassword (some userId) = false) (hc' : c' ∈ s.world.log)
    {loginDto : LoginDto} {u : User env.Hash} {m : Mark (schema env)} (hm : m ∈ c'.trace)
    (hauth : Authenticates env loginDto u m) (hu : u.id = userId) (hlater : older.length < m.index) :
    loginDto.password = dto.newPassword := by
  obtain ⟨older', hs', -⟩ := h.chronicle.found hc'
  obtain ⟨seen, hseen, hlen, hdb⟩ := ((h.obeys.log c' older' hs').marks m hm).seen
  have hseen' : seen <:+ s.world.log := hseen.trans ((List.suffix_cons c' older').trans hs')
  have hc : (c :: older) <:+ s.world.log := hlog ▸ List.suffix_append newer _
  obtain ⟨front, rfl⟩ : (c :: older) <:+ seen := by
    apply List.suffix_of_suffix_length_le hc hseen'
    rw [List.length_cons]
    omega
  have hfront : ∀ x ∈ front, x.call.changesPassword (some userId) = false := by
    obtain ⟨rest, hrest⟩ := hlog ▸ hseen'
    rw [← List.append_assoc] at hrest
    intro x hx
    exact hnewer x (List.append_cancel_right hrest ▸ List.mem_append_right _ hx)
  have hopens := h.opens hverify (fun _ _ _ hok => hok.1) hseen' hcall hfront
  rw [← hdb, ← hu] at hopens
  refine hauth.password_eq ?_ hopens
  rw [hdb]
  exact (userIds_replay base _).symm ▸ hids

theorem Run.earlier_login (h : Run (undisturbed env) base s) (hs : (c :: older) <:+ s.world.log)
    {row : Session} (hc : c.call.changesPassword row.userId = true) (hc' : c' ∈ s.world.log)
    (hlogin : c'.call.isLogin = true) (hinserts : .insertSession row ∈ c'.writes)
    {dto : LoginDto} {u : User env.Hash} {m : Mark (schema env)} (hm : m ∈ c'.trace)
    (hauth : Authenticates env dto u m) (hindex : m.index ≤ older.length) :
    ∃ older', (c' :: older') <:+ older := by
  obtain ⟨older', hs', -⟩ := h.chronicle.found hc'
  have hne : c :: older ≠ c' :: older' := by
    intro heq
    obtain ⟨rfl, rfl⟩ := List.cons.inj heq
    cases hcase : c.call with
    | login => rw [hcase] at hc; cases hc
    | _ => rw [hcase] at hlogin; cases hlogin
  rcases suffix_apart hs hs' hne with hle | hle
  · have hsince : c ∈ m.since older' := Mark.mem_since hle hindex
    have hfalse := ((h.obeys.log c' older' hs').commit.2 m hm c hsince).1 hlogin hauth.tag row
      (mem_newSessions hinserts)
    rw [hc] at hfalse
    cases hfalse
  · exact ⟨older', hle⟩

theorem Run.swept (h : Run (undisturbed env) base s) (h₀ : Sound base.sessions)
    (hs : (c :: older) <:+ s.world.log) {row : Session} {userId : Uuid}
    (howner : row.userId = some userId) (hc : c.call.changesPassword row.userId = true)
    (hbefore : row ∈ base.sessions ∨ ∃ c' older', (c' :: older') <:+ older ∧
      c'.call.isLogin = true ∧ .insertSession row ∈ c'.writes)
    {z : Session} (hz : z ∈ s.world.db.sessions) (hid : z.id = row.id) :
    z.revokedAt.isSome = true := by
  have hlog := h.chronicle
  obtain ⟨dto, salt, ws, m, -, hw, hws, hsweep, -⟩ := (hlog.suffix hs).1.changed (howner ▸ hc)
  obtain ⟨x, hx, hsame⟩ := h.mem_snapshot hs hsweep.1 hsweep.2.1 hc hbefore
  obtain ⟨seen, hseen, -, hdb⟩ := ((h.obeys.log c older hs).marks m hsweep.1).seen
  have hgrows : Grows m.db (replay base older) := by
    rw [hdb]
    exact grows_replay _ hseen
  have hreplaced : c.writes.filterMap Write.replacedId = [] := by
    rw [hw]
    exact (List.filterMap_cons_none rfl).trans hws.replaced
  obtain ⟨y, hy, hsame', hrevoked⟩ :=
    hsweep.revokes hreplaced hgrows hx (hsame.userId.trans howner)
  obtain ⟨z', hz', hsame''⟩ := grows_replay base hs y hy
  have hkeyed : Keyed s.world.db.sessions := h.db_eq ▸ (sound_replay h₀ hlog).toKeyed
  have hzid : z.id = z'.id := by rw [hid, hsame''.id, hsame'.id, hsame.id]
  rw [hkeyed.eq_of_id hz (h.db_eq ▸ hz') hzid]
  exact hsame''.revoked hrevoked

/-- A password change shuts out the logins on the old password in the runs in which none of them
crosses it. -/
theorem shutOut_of_run (hverify : ∀ p n q, env.verify (env.hash p n) q = true ↔ p = q)
    (h : Run (undisturbed env) base s) (h₀ : Sound base.sessions)
    (hids : (base.users.map (·.id)).Nodup) : ShutOut base s := by
  intro newer c older userId dto hsplit hcall hnewer row howner hrow z hz hid
  have hs : (c :: older) <:+ s.world.log := hsplit ▸ List.suffix_append newer _
  have hc : c.call.changesPassword row.userId = true := by
    rw [hcall, howner]
    exact decide_eq_true rfl
  refine h.swept h₀ hs howner hc ?_ hz hid
  rcases hrow with hbase | ⟨c', hc', hlogin, hinserts, loginDto, u, m, hm, hauth, hu, hold⟩
  · exact .inl hbase
  · have hindex : m.index ≤ older.length := by
      by_contra hlater
      have huser : u.id = userId := Option.some.inj (hu.symm.trans howner)
      have hnew := h.reads_new hverify hids hsplit hcall hnewer hc' hm hauth huser (not_le.mp hlater)
      exact hold.resolve_left hlater hnew
    obtain ⟨older', hs'⟩ := h.earlier_login hs hc hc' hlogin hinserts hm hauth hindex
    exact .inr ⟨c', older', hs', hlogin, hinserts⟩

end Run

instance : DecidablePred (undisturbed sampleEnv).spawn := fun _ => isTrue trivial

instance (c : Call) : DecidablePred ((undisturbed sampleEnv).stmt c) := fun _ => isTrue trivial

instance (c : Commit sampleSchema) (d : Db sampleEnv.Hash) :
    DecidablePred ((undisturbed sampleEnv).commit c d) := fun older =>
  inferInstanceAs (Decidable (_ ∧ ∀ m ∈ c.trace, ∀ c' ∈ m.since older,
    (_ → _ → ∀ row ∈ _, _ = _) ∧ (_ → _ → ∀ row ∈ _, _ = _)))

instance : DecidablePred (undisturbed sampleEnv).fault := fun _ => isTrue trivial

def sessionRun (i id random : ℕ) : List (Label sampleSchema) :=
  [.input i 0, .run i, .run i, .run i, .input i random, .input i 0, .run i, .run i, .mint i (.ofNat id),
    .run i, .run i, .input i 0]

theorem shutOut_after_change :
    ∃ s, (undisturbed sampleEnv).steps (body sampleEnv) (initial (signedOut true) [])
        (readRun 0 ++ sessionRun 0 3 7 ++ changeRun 1 1) = some s ∧
      s.world.db.sessions.map (fun x => (x.id, x.revokedAt)) = [(.ofNat 3, some 5)] ∧
      ShutOut (signedOut true) s := by
  have hrun : ((undisturbed sampleEnv).steps (body sampleEnv) (initial (signedOut true) [])
      (readRun 0 ++ sessionRun 0 3 7 ++ changeRun 1 1)).map
        (fun s => s.world.db.sessions.map fun x => (x.id, x.revokedAt)) =
      some [(.ofNat 3, some 5)] := by decide
  obtain ⟨s, hs, hsessions⟩ := Option.map_eq_some_iff.mp hrun
  exact ⟨s, hs, hsessions, shutOut_of_run verify_sampleEnv
    (.steps (known_signedOut true) hs) .nil (by decide)⟩

def lateRun : List (Label sampleSchema) := readRun 0 ++ changeRun 1 0 ++ sessionRun 0 3 7

def staysIn (s : State sampleSchema) : Bool :=
  s.world.log.map (fun c => c.call) =
    [.login secret "ip" none, .login secret "ip" none, .changePassword (.ofNat 1) ⟨"secret", "other"⟩] ∧
  s.world.log.any fun c => c.call.isLogin ∧
    (c.trace.any fun m => m.tag = .findUser ∧ m.index = 0 ∧
      (m.db.userOf (trim secret.username)).any fun u =>
        u.id = .ofNat 1 ∧ sampleEnv.verify u.passwordHash secret.password) ∧
    (c.writes.flatMap Write.newSessions).any fun row => row.userId = some (.ofNat 1) ∧
      s.world.db.sessions.any fun z => z.id = row.id ∧ z.revokedAt = none

theorem old_password_stays_in :
    ∃ s, Run (Policy.calls fun _ => True) (signedOut true) s ∧ ¬ ShutOut (signedOut true) s := by
  have hrun : ((Policy.calls fun _ => True).steps (body sampleEnv) (initial (signedOut true) [])
      lateRun).map staysIn = some true := by decide
  obtain ⟨s, hs, hstays⟩ := Option.map_eq_some_iff.mp hrun
  refine ⟨s, .steps (known_signedOut true) hs, fun hall => ?_⟩
  obtain ⟨hcalls, hany⟩ := of_decide_eq_true hstays
  obtain ⟨c', hc', hlogin⟩ := List.any_eq_true.mp hany
  obtain ⟨hcall, hread, hrow⟩ := of_decide_eq_true hlogin
  obtain ⟨m, hm, hseen⟩ := List.any_eq_true.mp hread
  obtain ⟨htag, hindex, huser⟩ := of_decide_eq_true hseen
  obtain ⟨u, hu, hverify⟩ := (Option.any_eq_true _ _).mp huser
  obtain ⟨huid, hpassword⟩ := of_decide_eq_true hverify
  obtain ⟨row, hnew, hlive⟩ := List.any_eq_true.mp hrow
  obtain ⟨howner, hsession⟩ := of_decide_eq_true hlive
  obtain ⟨z, hz, hzlive⟩ := List.any_eq_true.mp hsession
  obtain ⟨hzid, hnone⟩ := of_decide_eq_true hzlive
  obtain ⟨c₃, c₂, c, hlog⟩ := List.length_eq_three.mp (by simpa using congrArg List.length hcalls)
  rw [hlog] at hcalls
  simp only [List.map_cons, List.cons.injEq] at hcalls
  have hnewer : ∀ x ∈ [c₃, c₂], x.call.changesPassword (some (.ofNat 1)) = false := by
    intro x hx
    have hlogins : x.call = .login secret "ip" none := by
      rcases List.mem_pair.mp hx with rfl | rfl
      · exact hcalls.1
      · exact hcalls.2.1
    rw [hlogins]
    rfl
  have hinserts : .insertSession row ∈ c'.writes := by
    obtain ⟨x, hx, hmem⟩ := List.mem_flatMap.mp hnew
    cases x with
    | insertSession r => obtain rfl := List.mem_singleton.mp hmem; exact hx
    | _ => cases hmem
  have hold : OnOldPassword [] "other" row c' :=
    ⟨hcall, hinserts, secret, u, m, hm, ⟨htag, hu, hpassword⟩, by rw [howner, huid],
      .inl (by rw [hindex]; rfl)⟩
  have hrevoked := hall [c₃, c₂] c [] (.ofNat 1) ⟨"secret", "other"⟩ hlog hcalls.2.2.1 hnewer row howner
    (.inr ⟨c', hc', hold⟩) z hz hzid
  rw [hnone] at hrevoked
  cases hrevoked

end JitoGame.Auth
