import JitoGame.Auth.Rotation

namespace JitoGame.Auth

open Transactions AuthService

variable {env : Env} {d : Db env.Hash} {wanted : Session → Bool} {revokedAt start : ℕ}

def revocations (d : Db env.Hash) (wanted : Session → Bool) (revokedAt : ℕ) :
    List (Write env.Hash) :=
  (d.sessions.filter wanted).map fun s => .revoke s.id revokedAt

theorem sessions_revokeAll (ids : List Uuid) (d : Db env.Hash) :
    Db.sessions (applyAll (S := schema env) (ids.map fun id => .revoke id revokedAt) d) =
      d.sessions.map fun s => if s.id ∈ ids then s.revoked revokedAt else s := by
  induction ids generalizing d with
  | nil =>
    simp only [List.map_nil, List.not_mem_nil, ↓reduceIte, List.map_id']
    rfl
  | cons id ids ih =>
    have hone : ((Write.revoke id revokedAt : Write env.Hash).apply d).sessions =
        d.sessions.map fun s => if s.id = id then s.revoked revokedAt else s := by
      simp only [Write.apply, Write.newSessions, List.append_nil]
      rfl
    rw [List.map_cons, applyAll_cons]
    refine (ih _).trans ?_
    change List.map _ ((Write.revoke id revokedAt : Write env.Hash).apply d).sessions = _
    rw [hone, List.map_map]
    apply List.map_congr_left
    intro s _
    by_cases hid : s.id = id
    · by_cases hmem : id ∈ ids <;> simp [hid, hmem, Session.revoked]
    · simp [hid]

theorem sessions_revocations (h : Keyed d.sessions) :
    Db.sessions (applyAll (S := schema env) (revocations d wanted revokedAt) d) =
      d.sessions.map fun s => if wanted s then s.revoked revokedAt else s := by
  have hids : revocations d wanted revokedAt =
      ((d.sessions.filter wanted).map (·.id)).map fun id => .revoke id revokedAt := by
    rw [List.map_map]
    rfl
  rw [hids, sessions_revokeAll]
  apply List.map_congr_left
  intro s hs
  have hiff : s.id ∈ (d.sessions.filter wanted).map (·.id) ↔ wanted s = true := by
    constructor
    · intro hmem
      obtain ⟨t, ht, hid⟩ := List.mem_map.mp hmem
      obtain ⟨ht, hw⟩ := List.mem_filter.mp ht
      exact h.eq_of_id ht hs hid ▸ hw
    · intro hw
      exact List.mem_map.mpr ⟨s, List.mem_filter.mpr ⟨hs, hw⟩, rfl⟩
  by_cases hw : wanted s = true
  · rw [if_pos (hiff.mpr hw), if_pos hw]
  · rw [if_neg fun hmem => hw (hiff.mp hmem), if_neg hw]

theorem buffered_revoke (xs pre : List Uuid) (hnodup : (pre ++ xs).Nodup)
    (hxs : ∀ id ∈ xs, ∃ s ∈ d.sessions, s.id = id ∧ wanted s = true) :
    buffered (S := schema env) (fun id v =>
        if v.db.sessions.any fun s => s.id = id ∧ wanted s then [.revoke id revokedAt] else [])
      d start xs (pre.map fun id => .revoke id revokedAt) =
        (pre ++ xs).map fun id => .revoke id revokedAt := by
  induction xs generalizing pre with
  | nil => rw [List.append_nil, buffered]
  | cons id xs ih =>
    obtain ⟨s, hs, hid, hw⟩ := hxs id List.mem_cons_self
    have hnew : id ∉ pre := fun hmem =>
      (List.nodup_append.mp hnodup).2.2 id hmem id List.mem_cons_self rfl
    have hstill : (Db.sessions (applyAll (S := schema env)
        (pre.map fun id => .revoke id revokedAt) d)).any (fun s => s.id = id ∧ wanted s) = true := by
      rw [sessions_revokeAll]
      refine List.any_eq_true.mpr ⟨s, List.mem_map.mpr ⟨s, hs, if_neg ?_⟩, ?_⟩
      · rw [hid]
        exact hnew
      · simp [hid, hw]
    rw [buffered, if_pos hstill]
    have hpre : (pre.map fun id => (Write.revoke id revokedAt : Write env.Hash)) ++
        [.revoke id revokedAt] = (pre ++ [id]).map fun id => .revoke id revokedAt := by
      rw [List.map_append]
      rfl
    have hsplit : pre ++ id :: xs = pre ++ [id] ++ xs := by
      rw [List.append_assoc]
      rfl
    rw [hpre, hsplit]
    exact ih (pre ++ [id]) (hsplit ▸ hnodup) fun id' h => hxs id' (List.mem_cons_of_mem id h)

theorem buffered_revocations (h : Keyed d.sessions) :
    buffered (S := schema env) (fun id v =>
        if v.db.sessions.any fun s => s.id = id ∧ wanted s then [.revoke id revokedAt] else [])
      d start ((d.sessions.filter wanted).map (·.id)) [] = revocations d wanted revokedAt := by
  have hnodup : ((d.sessions.filter wanted).map (·.id)).Nodup :=
    h.ids.sublist ((List.filter_sublist).map _)
  refine (buffered_revoke _ [] hnodup fun id hid => ?_).trans ?_
  · obtain ⟨s, hs, hid⟩ := List.mem_map.mp hid
    obtain ⟨hs, hw⟩ := List.mem_filter.mp hs
    exact ⟨s, hs, hid, hw⟩
  · rw [List.nil_append, List.map_map]
    rfl

/-! The calls that end sessions, when no one else commits. -/

section Alone

variable {i : ℕ} {c : Call} {s : Local (schema env)} {w : World (schema env)}
variable {E : Err → Local (schema env) → World (schema env) → Prop}

theorem Still.wp_updateSessions {marks : List (Mark (schema env))}
    {Q : Unit → Local (schema env) → World (schema env) → Prop} (hd : Keyed d.sessions)
    (hw : Still (S := schema env) Db.Known d i w) (h : s.Running start [] marks)
    (hE : ∀ s' w', s'.faulted = true → Still (S := schema env) Db.Known d i w' → E .fault s' w')
    (hQ : ∀ s' w', s'.Running start (revocations d wanted revokedAt) marks →
      Still (S := schema env) Db.Known d i w' → Q () s' w') :
    wp (.sole Db.Known d i) i c (updateSessions env wanted revokedAt) Q E s w := by
  apply hw.wp_updateMany h hE
  intro s' w' hrun hw'
  rw [applyAll_nil, buffered_revocations hd] at hrun
  exact hQ s' w' hrun hw'

def Revoked (d : Db env.Hash) (wanted : Session → Bool) (log : List (Commit (schema env))) : Prop :=
  ∃ c t, log = [c] ∧ c.writes = revocations d wanted t

theorem Revoked.sessions {log : List (Commit (schema env))} (hd : Keyed d.sessions)
    (h : Revoked d wanted log) : ∃ t, Db.sessions (replay (S := schema env) d log) =
      d.sessions.map fun s => if wanted s then s.revoked t else s := by
  obtain ⟨c, t, rfl, hw⟩ := h
  refine ⟨t, ?_⟩
  rw [← sessions_revocations hd, ← hw]
  rfl

theorem wp_logout_alone (hd : Keyed d.sessions) {sessionId : Uuid} {owner : Option Uuid}
    {admin : Bool} (hw : Still (S := schema env) Db.Known d i w) (htx : s.tx = none)
    (hclean : s.faulted = false) :
    wp (.sole Db.Known d i) i c (logout env sessionId owner admin)
      (fun _ _ w' => Revoked d
        (fun s => s.id = sessionId ∧ s.revokedAt.isNone ∧ ownedBy owner admin s) w'.log)
      (fun e _ w' => e = .fault ∧ w'.log = []) s w := by
  rw [logout, wp_bind]
  apply hw.wp_outside
  intro revokedAt w₁ hw₁
  rw [wp_bind]
  refine hw₁.wp_transaction htx hclean (fun start s₂ w₂ hrun hw₂ => ?_)
    fun s' w' _ _ hw' => ⟨rfl, hw'.log⟩
  refine Still.wp_updateSessions hd hw₂ hrun (fun s' w' _ hw' => ⟨hw', fun w'' hw'' => ⟨rfl, hw''.log⟩⟩)
    fun s' w' hrun' hw' => ?_
  refine ⟨_, hrun', hw', fun w'' hw'' => ?_⟩
  exact ⟨⟨i, c, start, w''.clock, _, s'.trace⟩, revokedAt, congrArg _ hw''.log, rfl⟩

theorem wp_refresh_reused (hd : Keyed d.sessions) {rawToken ip : String} {x : Session} {owner : Uuid}
    (hx : d.sessionOf (env.hashToken rawToken) = some x) (hrevoked : x.revokedAt.isSome = true)
    (howner : ownerId x = some owner) (hw : Still (S := schema env) Db.Known d i w)
    (htx : s.tx = none) (hclean : s.faulted = false) :
    wp (.sole Db.Known d i) i c (refresh env rawToken ip) (fun _ _ _ => False)
      (fun e _ w' => e = .refreshTokenReused →
        Revoked d (ownedLive owner (isAdmin x)) w'.log) s w := by
  have hfault {l : List (Commit (schema env))} (heq : Err.fault = .refreshTokenReused) :
      Revoked d (ownedLive owner (isAdmin x)) l := absurd heq fault_ne
  rw [refresh, wp_bind]
  refine hw.wp_transaction htx hclean (fun start s₂ w₂ hrun hw₂ => ?_) fun _ _ _ _ _ => hfault
  rw [refreshTransaction, wp_bind]
  refine hw₂.wp_exec hrun (fun s' w' _ hw' => ⟨hw', fun _ _ => hfault⟩)
    fun m s₃ w₃ _ _ hrun₃ hw₃ => ?_
  have hfound : Db.sessionOf (applyAll (S := schema env) [] d) (env.hashToken rawToken) = some x := hx
  simp only [hfound]
  rw [wp_bind]
  apply hw₃.wp_outside
  intro now w₄ hw₄
  by_cases hexpired : x.expiresAt < now
  · rw [if_pos hexpired]
    refine ⟨_, hrun₃.older, hw₄, fun w'' _ => ?_⟩
    rw [wp_check]
    refine ⟨fun _ ha => (by cases ha), fun e he heq => ?_⟩
    cases heq
    cases he
  · rw [if_neg hexpired, if_pos hrevoked, revokeReused, howner]
    rw [wp_bind, revokeAllSessions, wp_bind]
    apply hw₄.wp_outside
    intro revokedAt w₅ hw₅
    refine Still.wp_updateSessions hd hw₅ hrun₃.older
      (fun s' w' _ hw' => ⟨hw', fun _ _ => hfault⟩) fun s' w' hrun' hw' => ?_
    refine ⟨_, hrun', hw', fun w'' hw'' => ?_⟩
    rw [wp_check]
    refine ⟨fun _ ha => (by cases ha), fun _ _ _ => ?_⟩
    exact ⟨⟨i, c, start, w''.clock, _, s'.trace⟩, revokedAt, congrArg _ hw''.log, rfl⟩

end Alone

section Serves

variable {σ : State (schema env)} {p : Proc (schema env)}

theorem logout_serves (hd : Keyed d.sessions) {sessionId : Uuid} {owner : Option Uuid} {admin : Bool}
    (h : Serves (body env) Db.Known d (Call.logout sessionId owner admin) σ)
    (hp : σ.procs 0 = some p) {a : Res} (hr : p.prog.Ends (.ok a)) :
    ∃ t, σ.world.db.sessions = d.sessions.map fun s =>
      if s.id = sessionId ∧ s.revokedAt.isNone ∧ ownedBy owner admin s then s.revoked t else s := by
  have hinv := h.still (X := fun r _ log => ∀ a, r = .ok a → Revoked d
    (fun s => s.id = sessionId ∧ s.revokedAt.isNone ∧ ownedBy owner admin s) log) fun w hw => ?_
  · obtain ⟨w₀, hrely, hdone⟩ := hinv.outcome hp hr
    obtain ⟨t, hsessions⟩ := Revoked.sessions hd (hrely.log_eq ▸ hdone a rfl)
    refine ⟨t, ?_⟩
    rw [hinv.ok.db_eq]
    apply hsessions.trans
    simp only [decide_eq_true_eq]
  · apply wp_mono _ (wp_logout_alone hd hw rfl rfl)
    · exact fun _ _ _ hdone _ _ => hdone
    · exact fun _ _ _ _ _ ha => by cases ha

theorem reuse_serves (hd : Keyed d.sessions) {rawToken ip : String} {x : Session} {owner : Uuid}
    (hx : d.sessionOf (env.hashToken rawToken) = some x) (hrevoked : x.revokedAt.isSome = true)
    (howner : ownerId x = some owner)
    (h : Serves (body env) Db.Known d (Call.refresh rawToken ip) σ) (hp : σ.procs 0 = some p)
    (hr : p.prog.Ends (.error Err.refreshTokenReused)) :
    ∃ t, σ.world.db.sessions = d.sessions.map fun s =>
      if ownedLive owner (isAdmin x) s then s.revoked t else s := by
  have hinv := h.still (X := fun r _ log => r = .error Err.refreshTokenReused →
    Revoked d (ownedLive owner (isAdmin x)) log) fun w hw => ?_
  · obtain ⟨w₀, hrely, hdone⟩ := hinv.outcome hp hr
    obtain ⟨t, hsessions⟩ := Revoked.sessions hd (hrely.log_eq ▸ hdone rfl)
    refine ⟨t, ?_⟩
    rw [hinv.ok.db_eq]
    exact hsessions
  · apply wp_mono _ (wp_refresh_reused hd hx hrevoked howner hw rfl rfl)
    · exact fun _ _ _ hno => hno.elim
    · exact fun e _ _ hdone he => hdone (Except.error.inj he)

end Serves

end JitoGame.Auth
