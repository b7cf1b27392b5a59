import JitoGame.Auth.Rotation

namespace JitoGame.Auth

open Transactions AuthService

def Retired {Hash : Type} (d : Db Hash) (id : Uuid) : Prop :=
  ∃ y ∈ d.sessions, y.id = id ∧ y.revokedAt.isSome = true ∧ y.replacedBySessionId = none

section Log

variable {env : Env} {base d : Db env.Hash} {ws : List (Write env.Hash)}
variable {c : Commit (schema env)} {log log' : List (Commit (schema env))}

theorem Write.session_link {x : Write env.Hash} {y : Session} (h : x.replacedId ≠ some y.id) :
    (x.session y).replacedBySessionId = y.replacedBySessionId := by
  cases x with
  | replace id t next =>
    have hne : y.id ≠ id := fun heq => h (congrArg some heq.symm)
    simp [Write.session, hne]
  | revoke id t =>
    simp only [Write.session]
    split
    · rfl
    · rfl
  | _ => rfl

theorem session_kept {y : Session} (hy : y ∈ d.sessions) (h : y.id ∉ ws.filterMap Write.replacedId) :
    ∃ y' ∈ Db.sessions (applyAll (S := schema env) ws d), y.Same y' ∧
      y'.replacedBySessionId = y.replacedBySessionId ∧
      ∀ t, .revoke y.id t ∈ ws → y'.revokedAt.isSome = true := by
  induction ws generalizing d y with
  | nil => exact ⟨y, hy, .refl y, rfl, nofun⟩
  | cons x ws ih =>
    have hid : (x.session y).id = y.id := (x.same_session y).id
    have hx : x.replacedId ≠ some y.id := by
      intro heq
      rw [List.filterMap_cons_some heq] at h
      exact h List.mem_cons_self
    have hws : y.id ∉ ws.filterMap Write.replacedId := by
      intro hmem
      obtain ⟨z, hz, heq⟩ := List.mem_filterMap.mp hmem
      exact h (List.mem_filterMap.mpr ⟨z, List.mem_cons_of_mem _ hz, heq⟩)
    have hmem : x.session y ∈ (x.apply d).sessions := mem_sessions_apply.mpr (.inl ⟨y, hy, rfl⟩)
    obtain ⟨y', hy', hsame, hlink, hrevoked⟩ := ih hmem (hid ▸ hws)
    refine ⟨y', hy', (x.same_session y).trans hsame, hlink.trans (Write.session_link hx),
      fun t ht => ?_⟩
    rcases List.mem_cons.mp ht with rfl | ht
    · exact hsame.revoked (by simp [Write.session, Session.revoked])
    · exact hrevoked t (hid ▸ ht)

theorem Retired.commit {id : Uuid} (h : Retired d id) (hd : Keyed d.sessions) (hc : Does c d) :
    Retired (applyAll (S := schema env) c.writes d) id := by
  obtain ⟨y, hy, rfl, hrevoked, hnone⟩ := h
  have hfree : y.id ∉ c.writes.filterMap Write.replacedId := by
    rcases hc.replaces with hempty | ⟨rawToken, s, owner, row, t, hw, hrotates⟩
    · rw [hempty]
      exact List.not_mem_nil
    · have hone : c.writes.filterMap Write.replacedId = [s.id] := by rw [hw]; rfl
      rw [hone]
      intro hmem
      rw [hd.eq_of_id hy hrotates.mem (List.mem_singleton.mp hmem), hrotates.live] at hrevoked
      cases hrevoked
  obtain ⟨y', hy', hsame, hlink, -⟩ := session_kept hy hfree
  exact ⟨y', hy', hsame.id, hsame.revoked hrevoked, hlink.trans hnone⟩

theorem Retired.later (h₀ : Sound base.sessions) {id : Uuid} (hlog : Chronicle Does base log')
    (hs : log <:+ log') (h : Retired (replay base log) id) : Retired (replay base log') id := by
  obtain ⟨front, rfl⟩ := hs
  induction front with
  | nil => exact h
  | cons c front ih =>
    exact (ih hlog.2).commit (sound_replay h₀ hlog.2).toKeyed hlog.1

theorem Retired.descendant {id id' : Uuid} (h : Retired d id) (hd : Keyed d.sessions)
    (hreach : Relation.ReflTransGen (Link d.sessions) id id') {z : Session} (hz : z ∈ d.sessions)
    (hid : z.id = id') : z.revokedAt.isSome = true := by
  obtain ⟨y, hy, hyid, hrevoked, hnone⟩ := h
  have hlast : id = id' := by
    rcases hreach.cases_head with heq | ⟨next, ⟨x, hx, hxid, hlink⟩, -⟩
    · exact heq
    · rw [hd.eq_of_id hx hy (hxid.trans hyid.symm), hnone] at hlink
      cases hlink
  rw [hd.eq_of_id hz hy (hid.trans (hlast.symm.trans hyid.symm))]
  exact hrevoked

theorem ownedLive_same {owner : Uuid} {isAdmin : Bool} {x y : Session} (hsame : x.Same y)
    (hlive : y.revokedAt = none) (h : ownedLive owner isAdmin x = true) :
    ownedLive owner isAdmin y = true := by
  simp only [ownedLive, hsame.userId, hsame.adminId, hlive, decide_eq_true_eq] at h ⊢
  exact ⟨h.1, rfl⟩

theorem Sweeps.leaves {owner : Uuid} {isAdmin : Bool} {m₀ : Mark (schema env)}
    {trace : List (Mark (schema env))} (h : Sweeps (ownedLive owner isAdmin) m₀ ws trace d)
    (hws : ws.filterMap Write.replacedId = []) {x : Session} (hx : x ∈ m₀.db.sessions)
    (hwanted : ownedLive owner isAdmin x = true) :
    ∃ m ∈ trace, m.tag = .revokeSession ∧ m.lock = some (.session x.id) ∧
      ∃ y ∈ m.db.sessions, x.Same y ∧ ∃ z ∈ Db.sessions (applyAll (S := schema env) ws d),
        y.Same z ∧ z.replacedBySessionId = y.replacedBySessionId ∧ z.revokedAt.isSome = true := by
  obtain ⟨-, -, hsweep⟩ := h
  obtain ⟨m, hm, htag, hlock, hgrows, hkept, hrevoke⟩ := hsweep x hx hwanted
  obtain ⟨y, hy, hsame⟩ := hgrows x hx
  have hfree : y.id ∉ ws.filterMap Write.replacedId := by
    rw [hws]
    exact List.not_mem_nil
  obtain ⟨z, hz, hsame', hlink, hrevoked⟩ := session_kept (hkept y hy hsame.id) hfree
  refine ⟨m, hm, htag, hlock, y, hy, hsame, z, hz, hsame', hlink, ?_⟩
  cases hlive : y.revokedAt with
  | some t => exact hsame'.revoked (by rw [hlive]; rfl)
  | none =>
    obtain ⟨t, ht⟩ := hrevoke y hy hsame.id (ownedLive_same hsame hlive hwanted)
    exact hrevoked t (hsame.id ▸ ht)

theorem Revokes.retires {owner : Uuid} {isAdmin : Bool} (h : Revokes (ownedLive owner isAdmin) c d)
    (hfound : ∀ m ∈ c.trace, m.tag = .revokeSession → ∀ y ∈ m.db.sessions,
      m.lock = some (.session y.id) → y.replacedBySessionId = none) :
    ∃ m ∈ c.trace, m.tag = .findSessions ∧ ∀ x ∈ m.db.sessions, ownedLive owner isAdmin x = true →
      Retired (applyAll (S := schema env) c.writes d) x.id := by
  obtain ⟨hrevocations, m₀, hsweep⟩ := h
  refine ⟨m₀, hsweep.1, hsweep.2.1, fun x hx hwanted => ?_⟩
  obtain ⟨m, hm, htag, hlock, y, hy, hsame, z, hz, hsame', hlink, hrevoked⟩ :=
    hsweep.leaves hrevocations.replaced hx hwanted
  have hnone := hfound m hm htag y hy (hsame.id ▸ hlock)
  exact ⟨z, hz, hsame'.id.trans hsame.id, hrevoked, hlink.trans hnone⟩

end Log

/-- Nothing that was live in the snapshot of the call, or descends from it, is live. -/
def Complete {env : Env} (i : ℕ) (s : State (schema env)) (wanted : Session → Bool) : Prop :=
  ∃ c m, own i s.world.log = [c] ∧ m ∈ c.trace ∧ m.tag = .findSessions ∧
    ∀ x ∈ m.db.sessions, wanted x = true →
      ∀ id, Relation.ReflTransGen (Link s.world.db.sessions) x.id id →
        ∀ z ∈ s.world.db.sessions, z.id = id → z.revokedAt.isSome = true

def Call.revokesAll : Call → Bool
  | .refresh .. | .adminRefresh .. | .logoutAll _ => true
  | _ => false

/-- Their `UPDATE` finds no session that was replaced while it waited for its lock. -/
def unrotated (env : Env) : Policy (schema env) :=
  ⟨fun _ => True,
    fun call m => call.revokesAll = true → m.tag = .revokeSession →
      ∀ y ∈ m.db.sessions, m.lock = some (.session y.id) → y.replacedBySessionId = none,
    fun _ _ _ => True, fun _ => True⟩

section Run

variable {env : Env} {base : Db env.Hash} {s : State (schema env)}

theorem Run.reused {K : Policy (schema env)} (h : Run K base s) {i : ℕ} {p : Proc (schema env)}
    (hp : s.procs i = some p) {rawToken : String} (hcall : p.call.presents = some rawToken)
    (hr : p.prog.Ends (.error .refreshTokenReused)) :
    p.call.revokesAll = true ∧ Commits base i s.world (Reused rawToken) := by
  have hdone := h.done hp hr
  obtain ⟨call, prog, loc⟩ := p
  cases call with
  | refresh raw ip => cases hcall; exact ⟨rfl, hdone⟩
  | adminRefresh raw ip => cases hcall; exact ⟨rfl, hdone⟩
  | _ => cases hcall

theorem Run.complete (h : Run (unrotated env) base s) (h₀ : Sound base.sessions) {i : ℕ}
    {p : Proc (schema env)} (hp : s.procs i = some p) (hcall : p.call.revokesAll = true)
    {owner : Uuid} {isAdmin : Bool} {c : Commit (schema env)} {older : List (Commit (schema env))}
    (hown : own i s.world.log = [c]) (hs : (c :: older) <:+ s.world.log)
    (hrevokes : Revokes (ownedLive owner isAdmin) c (replay base older)) :
    Complete i s (ownedLive owner isAdmin) := by
  have hc : c.call = p.call := h.own_call hp (hown ▸ List.mem_singleton_self c)
  have hsound : Sound s.world.db.sessions := h.db_eq ▸ sound_replay h₀ h.chronicle
  obtain ⟨m, hm, htag, hretires⟩ := hrevokes.retires fun m hm htag =>
    ((h.obeys.log c older hs).marks m hm).stmt (hc ▸ hcall) htag
  refine ⟨c, m, hown, hm, htag, fun x hx hwanted id hreach z hz hid => ?_⟩
  have hretired : Retired s.world.db x.id := by
    rw [h.db_eq]
    exact Retired.later h₀ h.chronicle hs (hretires x hx hwanted)
  exact hretired.descendant hsound.toKeyed hreach hz hid

theorem revocation_of_run (h : Run (unrotated env) base s) (h₀ : Sound base.sessions) :
    (∀ i p userId a, s.procs i = some p → p.call = .logoutAll userId → p.prog.Ends (.ok a) →
      Complete i s (ownedLive userId false)) ∧
    ∀ i p rawToken, s.procs i = some p → p.call.presents = some rawToken →
      p.prog.Ends (.error .refreshTokenReused) → ∃ x ∈ s.world.db.sessions,
        x.refreshTokenHash = env.hashToken rawToken ∧
          ∀ owner, ownerId x = some owner → Complete i s (ownedLive owner (isAdmin x)) := by
  constructor
  · intro i p userId a hp hcall hr
    have hdone := h.done hp hr
    rw [hcall] at hdone
    obtain ⟨c, older, hown, hs, hrevokes⟩ := hdone
    exact h.complete h₀ hp (by rw [hcall]; rfl) hown hs hrevokes
  · intro i p rawToken hp hcall hr
    obtain ⟨hsweeps, c, older, hown, hs, x, hx, htoken, -, hrevokes⟩ := h.reused hp hcall hr
    have hgrows : Grows (replay base older) s.world.db :=
      h.db_eq ▸ grows_replay _ ((List.suffix_cons c older).trans hs)
    obtain ⟨x', hx', hsame⟩ := hgrows x hx
    have howner : ownerId x' = ownerId x := by rw [ownerId, hsame.userId, hsame.adminId, ownerId]
    have hadmin : isAdmin x' = isAdmin x := by rw [isAdmin, hsame.userId, isAdmin]
    refine ⟨x', hx', hsame.refreshTokenHash.trans htoken, fun owner ho => ?_⟩
    rw [hadmin]
    exact h.complete h₀ hp hsweeps hown hs (hrevokes owner (howner ▸ ho))

end Run

instance : DecidablePred (unrotated sampleEnv).spawn := fun _ => isTrue trivial

instance (c : Call) : DecidablePred ((unrotated sampleEnv).stmt c) := fun m =>
  inferInstanceAs (Decidable (c.revokesAll = true → m.tag = .revokeSession →
    ∀ y ∈ m.db.sessions, m.lock = some (.session y.id) → y.replacedBySessionId = none))

instance (c : Commit sampleSchema) (d : Db sampleEnv.Hash) :
    DecidablePred ((unrotated sampleEnv).commit c d) := fun _ => isTrue trivial

instance : DecidablePred (unrotated sampleEnv).fault := fun _ => isTrue trivial

def loggedOut (i : ℕ) (s : State sampleSchema) : Bool :=
  (s.procs i).any fun p => p.call = .logoutAll (.ofNat 1) ∧ p.prog.result = some (.ok .done)

def logoutAllRun : List (Label sampleSchema) :=
  [.spawn 0 (.logoutAll (.ofNat 1)), .input 0 5, .run 0, .run 0, .run 0, .run 0]

theorem revocation_after_logoutAll :
    ∃ s, (unrotated sampleEnv).steps (body sampleEnv) (initial signedIn [Uuid.ofNat 2]) logoutAllRun =
        some s ∧
      s.world.db.sessions = [(aliceSession 2 "a").revoked 5] ∧
      Complete 0 s (ownedLive (.ofNat 1) false) := by
  have hrun : ((unrotated sampleEnv).steps (body sampleEnv) (initial signedIn [Uuid.ofNat 2])
      logoutAllRun).map (fun s => (s.world.db.sessions, loggedOut 0 s)) =
      some ([(aliceSession 2 "a").revoked 5], true) := by decide
  obtain ⟨s, hs, hshape⟩ := Option.map_eq_some_iff.mp hrun
  obtain ⟨hsessions, hout⟩ := Prod.mk.inj hshape
  obtain ⟨p, hp, hends⟩ := (Option.any_eq_true _ _).mp hout
  obtain ⟨hcall, hr⟩ := of_decide_eq_true hends
  exact ⟨s, hs, hsessions,
    (revocation_of_run (.steps known_signedIn hs) sound_signedIn).1 0 p _ _ hp hcall hr⟩

/-- The rotation of process 0 commits while the `UPDATE` of process 1 waits for its lock. -/
def escapeRun : List (Label sampleSchema) :=
  [.spawn 0 (.refresh "a" "ip"), .run 0, .run 0, .input 0 0] ++ rotateRun 0 3 7 ++
    [.spawn 1 (.logoutAll (.ofNat 1)), .input 1 5, .run 1, .run 1, .run 0, .run 1, .run 1]

def snapshots (i : ℕ) (s : State sampleSchema) : List (List Session) :=
  (own i s.world.log).flatMap fun c =>
    (c.trace.filter fun m => m.tag = .findSessions).map fun m => m.db.sessions

def escapes (s : State sampleSchema) : Bool :=
  loggedOut 1 s ∧ snapshots 1 s = [[aliceSession 2 "a"]] ∧
    s.world.db.sessions.map (fun x => (x.id, x.replacedBySessionId, x.revokedAt)) =
      [(.ofNat 2, some (.ofNat 3), some 0), (.ofNat 3, none, none)]

theorem successor_survives_logoutAll :
    ∃ s p, Run (Policy.calls fun _ => True) signedIn s ∧ s.procs 1 = some p ∧
      p.call = .logoutAll (.ofNat 1) ∧ p.prog.Ends (.ok .done) ∧
      ¬ Complete 1 s (ownedLive (.ofNat 1) false) := by
  have hrun : ((Policy.calls fun _ => True).steps (body sampleEnv) (initial signedIn [Uuid.ofNat 2])
      escapeRun).map escapes = some true := by decide
  obtain ⟨s, hs, hescapes⟩ := Option.map_eq_some_iff.mp hrun
  obtain ⟨hout, hsnapshots, hsessions⟩ := of_decide_eq_true hescapes
  obtain ⟨p, hp, hends⟩ := (Option.any_eq_true _ _).mp hout
  obtain ⟨hcall, hr⟩ := of_decide_eq_true hends
  refine ⟨s, p, .steps known_signedIn hs, hp, hcall, hr, ?_⟩
  rintro ⟨c, m, hown, hm, htag, hall⟩
  have hsnap : m.db.sessions = [aliceSession 2 "a"] := by
    have hmem : m.db.sessions ∈ snapshots 1 s := by
      refine List.mem_flatMap.mpr ⟨c, hown ▸ List.mem_singleton_self c, ?_⟩
      exact List.mem_map_of_mem (List.mem_filter.mpr ⟨hm, decide_eq_true htag⟩)
    rw [hsnapshots] at hmem
    exact List.mem_singleton.mp hmem
  obtain ⟨a, ha, haeq⟩ := List.mem_map.mp (hsessions ▸ List.mem_cons_self)
  obtain ⟨b, hb, hbeq⟩ := List.mem_map.mp (hsessions ▸ List.mem_cons_of_mem _ List.mem_cons_self)
  simp only [Prod.mk.injEq] at haeq hbeq
  have hlink : Link s.world.db.sessions (.ofNat 2) (.ofNat 3) := ⟨a, ha, haeq.1, haeq.2.1⟩
  have hrevoked := hall (aliceSession 2 "a") (hsnap ▸ List.mem_singleton_self _) (by decide) _
    (.single hlink) b hb hbeq.1
  rw [hbeq.2.2] at hrevoked
  cases hrevoked

end JitoGame.Auth
