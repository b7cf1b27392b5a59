import JitoGame.Recovery

namespace JitoGame

open Transactions

namespace RoundsService

variable {d d' : Db} {gameId : GameId} {r : GameRound} {windowMs : ℕ}

/-! `reconcile` commits once, as the last thing it does. -/

theorem commitsLast_update (tag : Tag) (roundId : Uuid) (guard : ℕ → GameRound → Bool) (x : ℕ → Write) :
    (update tag roundId guard x : Prog engine Bool).CommitsLast := by
  apply Prog.Quiet.transaction
  apply Prog.Quiet.bind (Prog.quiet_exec _ _ _)
  exact fun _ => Prog.quiet_pure _

theorem quiet_createRound (row : GameRound) : (createRound row : Prog engine Unit).Quiet := by
  apply Prog.Quiet.bind (Prog.quiet_require ..)
  intro _
  apply Prog.Quiet.bind (Prog.quiet_insert _ _ _ _ _)
  intro _
  apply Prog.Quiet.bind (Prog.quiet_insert _ _ _ _ _)
  exact fun _ => Prog.quiet_insert _ _ _ _ _

theorem commitsLast_tryCreateRound :
    (tryCreateRound windowMs gameId : Prog engine (Option GameRound)).CommitsLast := by
  have hnumber : (nextRoundNumber gameId : Prog engine ℤ).Quiet :=
    Prog.Quiet.bind (Prog.quiet_exec _ _ _) fun _ => Prog.quiet_pure _
  apply hnumber.then
  intro roundNumber
  apply Prog.quiet_outside.then
  intro opensAt
  apply Prog.CommitsLast.handle
  · apply Prog.commitsLast_fresh
    intro id
    exact (quiet_createRound _).transaction.bind fun _ => Prog.quiet_pure _
  · intro err
    split
    · exact Prog.quiet_pure _
    · exact Prog.quiet_throw _

theorem commitsLast_reconcile : (reconcile windowMs gameId : Prog engine Unit).CommitsLast := by
  have hlive : (findLiveRound gameId : Prog engine (Option GameRound)).Quiet :=
    Prog.Quiet.bind (Prog.quiet_exec _ _ _) fun _ => Prog.quiet_pure _
  apply hlive.then
  intro round
  cases round with
  | none => exact commitsLast_tryCreateRound.bind fun _ => Prog.quiet_pure _
  | some round =>
    dsimp only
    split
    · exact (commitsLast_update _ _ _ _).bind fun _ => Prog.quiet_pure _
    split
    · exact (commitsLast_update _ _ _ _).bind fun _ => Prog.quiet_pure _
    · exact (Prog.quiet_pure _).commitsLast

/-! One call, wherever it was abandoned. -/

def Advances (gameId : GameId) (w w' : World engine) : Prop :=
  ∃ now, w.clock ≤ now ∧ now ≤ w'.clock ∧ Reconciles gameId now w.db w'.db

section Serving

variable {w : World engine} {s : State engine} {p : Proc engine}

theorem Reconciled.advances (hd : Recoverable w.db)
    (h : Serving Db.Known engineBody w (.reconcile windowMs gameId) s)
    (hdb : s.world.db = replay w.db s.world.log) (hr : Reconciled windowMs gameId w.db s.world.log) :
    Advances gameId w s.world := by
  have hrec := hr.reconciles hd w.clock
  rw [← hdb] at hrec
  refine ⟨_, ?_, ?_, hrec⟩
  · cases hlog : s.world.log with
    | nil => exact Nat.le_refl _
    | cons c log => exact (h.within.log c (hlog ▸ List.mem_cons_self)).1
  · cases hlog : s.world.log with
    | nil => exact h.within.clock
    | cons c log => exact (h.within.log c (hlog ▸ List.mem_cons_self)).2

theorem reconcile_serving (hd : Recoverable w.db)
    (h : Serving Db.Known engineBody w (.reconcile windowMs gameId) s) :
    (s.world.db = w.db ∨ Advances gameId w s.world) ∧
      ∀ p, s.procs 0 = some p → p.prog.Ends (.ok ()) → Advances gameId w s.world := by
  let X : Except Err Unit → Local engine → World engine → Prop := fun r _ w' =>
    match r with
    | .ok _ => Reconciled windowMs gameId w.db w'.log
    | .error _ => w'.log = []
  have hwp : wp (.sole Db.Known w.db 0) 0 (.reconcile windowMs gameId)
      (engineBody (.reconcile windowMs gameId)) (fun a => X (.ok a)) (fun e => X (.error e)) .idle w :=
    wp_reconcile_alone hd h.still rfl rfl
  have hdb : s.world.db = replay w.db s.world.log := (h.ok hwp).db_eq
  have hadvances (hr : Reconciled windowMs gameId w.db s.world.log) := hr.advances hd h hdb
  have hsame (hlog : s.world.log = []) : s.world.db = w.db := by
    rw [hdb, hlog]
    rfl
  constructor
  · rcases h.abandoned hwp commitsLast_reconcile with hnil | ⟨r, s', w₀, hX, hlog, -⟩
    · exact .inl (hsame hnil)
    · cases r with
      | ok a => exact .inr (hadvances (hlog ▸ hX))
      | error e => exact .inl (hsame (hlog ▸ hX))
  · intro p hp hr
    obtain ⟨w₀, hX, hlog, -⟩ := h.outcome hwp hp hr
    exact hadvances (hlog ▸ hX)

end Serving

/-! Calls one after the other. -/

theorem liveRound_congr (h : roundsOf d' gameId = roundsOf d gameId) :
    liveRound d' gameId = liveRound d gameId := by
  have hlive (d : Db) : liveRound d gameId =
      ((roundsOf d gameId).filter fun r => !r.state.terminal).foldl later none := by
    rw [roundsOf, List.filter_filter, liveRound]
    congr 2
    funext r
    simp [Bool.and_comm]
  rw [hlive, hlive, h]

theorem rank_congr (h : roundsOf d' gameId = roundsOf d gameId) : rank d' gameId = rank d gameId := by
  rw [rank, rank, liveRound_congr h]

theorem Waits.rank {now : ℕ} (h : Waits d gameId now) : rank d gameId = 1 := by
  obtain ⟨r, hr, hl, -⟩ := h
  exact rank_lockable hr hl

def reconciles (gameId : GameId) : EngineCall → Bool
  | .reconcile _ g => g = gameId
  | .finish _ _ => false

def Reconciling (ps : List (Proc engine)) : Prop := ∀ p ∈ ps, ∃ gameId, reconciles gameId p.call = true

def completed (gameId : GameId) (ps : List (Proc engine)) : ℕ :=
  ps.countP fun p => reconciles gameId p.call ∧ p.prog.result = some (.ok ())

section Series

variable {w w' : World engine} {s : State engine} {c : EngineCall} {p : Proc engine}
variable {ps : List (Proc engine)}

theorem serving_step (hd : Recoverable w.db) (h : Serving Db.Known engineBody w c s)
    (hp : s.procs 0 = some p) (hc : ∃ gameId, reconciles gameId p.call = true) (gameId : GameId) :
    Recoverable s.world.db ∧
      (rank s.world.db gameId ≤ 1 ∨ rank s.world.db gameId + completed gameId [p] ≤ rank w.db gameId) ∧
      (rank w.db gameId = 0 → roundsOf s.world.db gameId = roundsOf w.db gameId ∧
        (reconciles gameId p.call = true → s.world.db = w.db)) := by
  obtain ⟨-, q, hq, hcall⟩ := h.proc
  cases hp.symm.trans hq
  obtain ⟨g, hg⟩ := hc
  rw [hcall] at hg ⊢
  cases c with
  | finish roundId state => cases hg
  | reconcile windowMs g' =>
    obtain ⟨hany, hdone⟩ := reconcile_serving hd h
    have hended : completed gameId [p] = 0 ∨ g' = gameId ∧ Advances g' w s.world := by
      by_cases hend : reconciles gameId p.call = true ∧ p.prog.result = some (.ok ())
      · rw [hcall] at hend
        exact .inr ⟨of_decide_eq_true hend.1, hdone p hp hend.2⟩
      · exact .inl (by simp [completed, hend])
    have hcase : s.world.db = w.db ∧ completed gameId [p] = 0 ∨ Advances g' w s.world := by
      rcases hany with hsame | hadv
      · rcases hended with hzero | hadv
        · exact .inl ⟨hsame, hzero⟩
        · exact .inr hadv.2
      · exact .inr hadv
    have hone : completed gameId [p] ≤ 1 := List.countP_le_length
    rcases hcase with ⟨hsame, hzero⟩ | ⟨now, -, -, hadv⟩
    · rw [hsame]
      exact ⟨hd, .inr (by omega), fun _ => ⟨rfl, fun _ => rfl⟩⟩
    · by_cases hgame : gameId = g'
      · subst hgame
        by_cases hidle : rank w.db gameId = 0 ∨ Waits w.db gameId now
        · have hsame := hadv.idle hidle
          refine ⟨hadv.recoverable, .inl ?_, fun _ => ⟨by rw [hsame], fun _ => hsame⟩⟩
          rw [hsame]
          rcases hidle with hzero | hwaits
          · omega
          · exact Nat.le_of_eq hwaits.rank
        · have hstep := hadv.step hidle
          refine ⟨hadv.recoverable, .inr (by omega), fun hzero => absurd (.inl hzero) hidle⟩
      · have hsame := hadv.others gameId hgame
        refine ⟨hadv.recoverable, .inr ?_, fun _ => ⟨hsame, fun hg => ?_⟩⟩
        · rcases hended with hzero | hadv
          · rw [rank_congr hsame]
            omega
          · exact absurd hadv.1.symm hgame
        · exact absurd (of_decide_eq_true hg).symm hgame

theorem series_step (hs : Series Db.Known engineBody w ps w') (hd : Recoverable w.db)
    (hps : Reconciling ps) (gameId : GameId) : Recoverable w'.db ∧
      (rank w'.db gameId ≤ 1 ∨ rank w'.db gameId + completed gameId ps ≤ rank w.db gameId) := by
  induction hs with
  | nil w => exact ⟨hd, .inr (Nat.le_refl _)⟩
  | @cons w w' c s p ps h hp hs ih =>
    obtain ⟨hrec, hrank, -⟩ := serving_step hd h hp (hps p List.mem_cons_self) gameId
    obtain ⟨hrec', hrank'⟩ := ih hrec fun q hq => hps q (List.mem_cons_of_mem p hq)
    have hsum : completed gameId ([p] ++ ps) = completed gameId [p] + completed gameId ps :=
      List.countP_append
    refine ⟨hrec', ?_⟩
    change _ ∨ _ + _ ≤ rank s.world.db gameId at hrank'
    change _ ∨ _ + completed gameId ([p] ++ ps) ≤ _
    omega

theorem series_rests (hs : Series Db.Known engineBody w ps w') (hd : Recoverable w.db)
    (hps : Reconciling ps) :
    (∀ gameId, rank w.db gameId = 0 → roundsOf w'.db gameId = roundsOf w.db gameId) ∧
      ((∀ p ∈ ps, ∃ gameId, reconciles gameId p.call = true ∧ rank w.db gameId = 0) → w'.db = w.db) := by
  induction hs with
  | nil w => exact ⟨fun _ _ => rfl, fun _ => rfl⟩
  | @cons w w' c s p ps h hp hs ih =>
    have hstep := serving_step hd h hp (hps p List.mem_cons_self)
    obtain ⟨hothers, hall⟩ := ih (hstep .tripleChanceTimer).1 fun q hq => hps q (List.mem_cons_of_mem p hq)
    constructor
    · intro gameId hzero
      have hsame := ((hstep gameId).2.2 hzero).1
      exact (hothers gameId ((rank_congr hsame).trans hzero)).trans hsame
    · intro hrest
      obtain ⟨gameId, hg, hzero⟩ := hrest p List.mem_cons_self
      have hsame : s.world.db = w.db := ((hstep gameId).2.2 hzero).2 hg
      refine (hall fun q hq => ?_).trans hsame
      change ∃ gameId, reconciles gameId q.call = true ∧ rank s.world.db gameId = 0
      rw [hsame]
      exact hrest q (List.mem_cons_of_mem p hq)

end Series

structure Resting (d : Db) (gameId : GameId) : Prop where
  live : (liveRounds d gameId).length = 1
  rank : rank d gameId = 0

theorem resting_of_rank (h : OneLive d) (hrank : rank d gameId = 0) : Resting d gameId := by
  refine ⟨?_, hrank⟩
  cases hr : liveRound d gameId with
  | none =>
    rw [rank_none hr] at hrank
    cases hrank
  | some r =>
    rw [liveRounds_some h hr]
    rfl

/-- Every completed call of `reconcile` brings its game one step closer to rest, an abandoned one does so
or does nothing, and three completed calls, the last after the deadline, bring it to rest for good. -/
theorem reconcile_converges {w₀ w₁ : World engine} {ps : List (Proc engine)} {s : State engine}
    {p : Proc engine} (hd : Recoverable w₀.db) (hs : Series Db.Known engineBody w₀ ps w₁)
    (hps : Reconciling ps) (h : Serving Db.Known engineBody w₁ (.reconcile windowMs gameId) s)
    (hp : s.procs 0 = some p) :
    (p.prog.Ends (.ok ()) → Advances gameId w₁ s.world) ∧
      (s.world.db = w₁.db ∨ Advances gameId w₁ s.world) ∧
      (p.prog.Ends (.ok ()) → 2 ≤ completed gameId ps →
        (∀ r ∈ liveRound w₁.db gameId, r.bettingDeadline ≤ w₁.clock) →
        Resting s.world.db gameId ∧ ∀ ps' w₂, Series Db.Known engineBody s.world.settled ps' w₂ →
          Reconciling ps' → roundsOf w₂.db gameId = roundsOf s.world.db gameId ∧
            ((∀ p ∈ ps', reconciles gameId p.call = true) → w₂.db = s.world.db)) := by
  obtain ⟨hrec, hrank⟩ := series_step hs hd hps gameId
  obtain ⟨hany, hdone⟩ := reconcile_serving hrec h
  refine ⟨hdone p hp, hany, fun hend hcount hdeadline => ?_⟩
  obtain ⟨now, hnow, -, hadv⟩ := hdone p hp hend
  have hle : rank w₀.db gameId ≤ 3 := by
    rw [rank]
    split
    · exact Nat.le_refl _
    split
    · omega
    split <;> omega
  have hone : rank w₁.db gameId ≤ 1 := by omega
  have hwaits : ¬ Waits w₁.db gameId now := by
    rintro ⟨r, hr, -, hlate⟩
    have hpassed := hdeadline r hr
    omega
  have hzero : rank s.world.db gameId = 0 := by
    by_cases hz : rank w₁.db gameId = 0
    · rw [hadv.idle (.inl hz), hz]
    · have hstep := hadv.step fun hidle => hidle.elim hz hwaits
      omega
  refine ⟨resting_of_rank hadv.recoverable.live hzero, fun ps' w₂ hs' hps' => ?_⟩
  obtain ⟨hothers, hall⟩ := series_rests hs' hadv.recoverable hps'
  exact ⟨hothers gameId hzero, fun hg => hall fun q hq => ⟨gameId, hg q hq, hzero⟩⟩

theorem serving_used {w : World engine} {c : EngineCall} {s : State engine}
    (h : Serving Db.Known engineBody w c s) : ∀ x, Db.Known s.world.db x → x ∈ s.world.used := by
  have hstart : w.Ok (engineProtocol w.db) :=
    ⟨by rw [h.log]; rfl, by rw [h.log]; trivial, h.used⟩
  have hown : own 0 w.log = [] := by
    rw [h.log]
    rfl
  have hsafe := engine_verified w.db (fun _ => True) 0 c w trivial hstart hown
  exact (h.meets (P := engineProtocol w.db) rfl (fun _ hx => hx) hsafe).ok.known

end RoundsService

/-! A run in which the second call is abandoned before its commit. -/

def createCall : EngineCall × List (Label engine) :=
  (.reconcile 60 .tripleChanceTimer, [.run 0, .run 0, .input 0 40, .mint 0 roundId, .run 0, .run 0, .run 0,
    .run 0, .run 0])

def abandonedCall : EngineCall × List (Label engine) :=
  (.reconcile 60 .tripleChanceTimer, [.run 0, .run 0, .run 0, .tick 100])

def updateCall : EngineCall × List (Label engine) :=
  (.reconcile 60 .tripleChanceTimer, [.run 0, .run 0, .run 0, .run 0])

def emptyWorld : World engine := ⟨emptyDb, 0, [], []⟩

theorem reconcile_converges_after_crash : ∃ ps w₁ s, Series Db.Known engineBody emptyWorld ps w₁ ∧
    ps.length = 3 ∧ RoundsService.completed .tripleChanceTimer ps = 2 ∧
      Serving Db.Known engineBody w₁ (.reconcile 60 .tripleChanceTimer) s ∧
      RoundsService.Resting s.world.db .tripleChanceTimer := by
  have hrun : ((emptyWorld.serve engineBody [createCall, abandonedCall, updateCall]).bind fun x =>
      ((Policy.calls fun _ => False).steps engineBody (x.2.given engineBody updateCall.1) updateCall.2).bind
        fun s => (s.procs 0).map fun p => (x.1.length, RoundsService.completed .tripleChanceTimer x.1,
          x.1.all (fun p => RoundsService.reconciles .tripleChanceTimer p.call), decide (p.prog.result = some (.ok ())),
          (RoundsService.liveRound x.2.db .tripleChanceTimer).all fun r => r.bettingDeadline ≤ x.2.clock)) =
      some (3, 2, true, true, true) := by decide
  obtain ⟨⟨ps, w₁⟩, hserve, hrun⟩ := Option.bind_eq_some_iff.mp hrun
  obtain ⟨s, hs, hrun⟩ := Option.bind_eq_some_iff.mp hrun
  obtain ⟨p, hp, hrun⟩ := Option.map_eq_some_iff.mp hrun
  simp only [Prod.mk.injEq] at hrun
  obtain ⟨hlength, hcount, hgames, hend, hdeadline⟩ := hrun
  have hknown : ∀ x, emptyDb.Known x → x ∈ ([] : List Uuid) := by
    rintro x (h | h | h | h | h) <;> simp [emptyDb] at h
  have hstart : Recoverable emptyDb :=
    ⟨⟨fun _ => Nat.zero_le 1, fun _ => ⟨0, .nil⟩⟩, fun r hr => (by cases hr), List.nodup_nil⟩
  obtain ⟨hseries, hlog, hused⟩ := Series.serve (fun _ _ _ => RoundsService.serving_used) rfl hknown hserve
  have hserving : Serving Db.Known engineBody w₁ updateCall.1 s := .steps hlog hused hs
  have hreconciling : RoundsService.Reconciling ps :=
    fun p hp => ⟨.tripleChanceTimer, List.all_eq_true.mp hgames p hp⟩
  have hlate : ∀ r ∈ RoundsService.liveRound w₁.db .tripleChanceTimer, r.bettingDeadline ≤ w₁.clock := by
    intro r hr
    rw [Option.mem_def.mp hr] at hdeadline
    exact of_decide_eq_true hdeadline
  have hended : p.prog.result = some (.ok ()) := of_decide_eq_true hend
  have hresult := (RoundsService.reconcile_converges hstart hseries hreconciling hserving hp).2.2
    hended (Nat.le_of_eq hcount.symm) hlate
  exact ⟨ps, w₁, s, hseries, hlength, hcount, hserving, hresult.1⟩

end JitoGame
