import JitoGame.RoundsVerified
import JitoGame.Transactions.Run

namespace JitoGame

open Transactions

/-- The instances of the engine, and the later phases of a round, which may finish any locked one. -/
inductive EngineCall
  | reconcile (windowMs : ℕ) (gameId : GameId)
  | finish (roundId : Uuid) (state : RoundState)
  deriving DecidableEq

abbrev engine : Schema := schema EngineCall Unit

def finishRound (roundId : Uuid) (state : RoundState) : Prog engine Bool :=
  RoundsService.update .finishRound roundId (fun _ r => r.finishable state)
    fun _ => .finishRound roundId state

def engineBody : EngineCall → Prog engine Unit
  | .reconcile windowMs gameId => RoundsService.reconcile windowMs gameId
  | .finish roundId state => do let _ ← finishRound roundId state

def Finishes (roundId : Uuid) (state : RoundState) : Commit engine → Db → Prop :=
  Updates roundId (fun _ r => r.finishable state) fun _ => .finishRound roundId state

inductive EngineMeets (c : Commit engine) (d : Db) : Prop
  | creation {windowMs : ℕ} {gameId : GameId} {row : GameRound} (hw : c.writes = [.insertRound row])
      (h : Creates windowMs gameId row d) (hn : RoundsService.Follows gameId row.roundNumber d)
  | opening {roundId : Uuid} (h : Opens roundId c d)
  | locking {roundId : Uuid} (h : Locks roundId c d)
  | finishing {roundId : Uuid} {state : RoundState} (h : Finishes roundId state c d)

structure Raced (base : Db) (windowMs : ℕ) (gameId : GameId) (m : Mark engine)
    (log : List (Commit engine)) : Prop where
  logs : ∃ id opensAt log₁ log₂ log₃, log₁ <:+ log₂ ∧ log₂ <:+ log₃ ∧ log₃ <:+ log ∧
    m.index = log₁.length ∧ m.db = replay base log₁ ∧
    RoundsService.Taken (RoundsService.roundRow id gameId
      ((RoundsService.maxRoundNumber (replay base log₂) gameId).getD 0 + 1) opensAt windowMs)
      (replay base log₃)

inductive EngineDone (base : Db) (i : ℕ) (s : Local engine) (w : World engine) :
    EngineCall → Except Err Unit → Prop
  | failed {call : EngineCall} {e : Err} (h : own i w.log = []) : EngineDone base i s w call (.error e)
  | committed {call : EngineCall} {c : Commit engine} (h : own i w.log = [c]) :
      EngineDone base i s w call (.ok ())
  | idle {windowMs : ℕ} {gameId : GameId} {m : Mark engine} (h : own i w.log = [])
      (hm : [m] <:+ s.trace) (hlive : RoundsService.liveRound m.db gameId ≠ none) :
      EngineDone base i s w (.reconcile windowMs gameId) (.ok ())
  | raced {windowMs : ℕ} {gameId : GameId} {m : Mark engine} (h : own i w.log = [])
      (hm : [m] <:+ s.trace) (hr : Raced base windowMs gameId m w.log) :
      EngineDone base i s w (.reconcile windowMs gameId) (.ok ())

def engineProtocol (base : Db) : Protocol engine := discipline base EngineMeets

def engineDone (base : Db) : Outcome engine := fun i call r s w => EngineDone base i s w call r

section Verified

variable {base : Db} {i : ℕ} {w : World engine}

theorem finish_verified {roundId : Uuid} {state : RoundState} (hown : own i w.log = []) :
    Safe (engineProtocol base) (engineDone base) i
      ⟨.finish roundId state, engineBody (.finish roundId state), .idle⟩ w := by
  change wp _ _ _ (finishRound roundId state >>= _) _ _ _ _
  rw [wp_bind]
  refine RoundsService.wp_update rfl (fun _ => rfl) (fun com d _ hup => .finishing hup)
    (fun e s' w' hal => .failed (hal.own.trans hown)) fun hit com s' w' hown' hproc _ => ?_
  exact .committed (own_push hproc (hown'.trans hown))

theorem reconcile_verified {windowMs : ℕ} {gameId : GameId} (hown : own i w.log = []) :
    Safe (engineProtocol base) (engineDone base) i
      ⟨.reconcile windowMs gameId, engineBody (.reconcile windowMs gameId), .idle⟩ w := by
  have hfail {e : Err} {s' : Local engine} {w' : World engine}
      (hal : Along (engineProtocol base) i .idle w s' w') :
      EngineDone base i s' w' (.reconcile windowMs gameId) (.error e) := .failed (hal.own.trans hown)
  have hcommit {com : Commit engine} {s' : Local engine} {w' : World engine} (h : own i w'.log = [])
      (hproc : com.proc = i) : EngineDone base i s' (w'.push com) (.reconcile windowMs gameId) (.ok ()) :=
    .committed (own_push hproc h)
  change wp _ _ _ (RoundsService.reconcile windowMs gameId) _ _ _ _
  rw [RoundsService.reconcile, wp_bind, RoundsService.findLiveRound, wp_bind, wp_select]
  intro w₁ hw₁
  refine ⟨hfail ⟨hw₁, fun _ hr => hr, List.suffix_refl _⟩, ?_⟩
  let m : Mark engine := Local.mark .idle .findLiveRound none w₁
  let s₁ : Local engine := Local.exec .idle .findLiveRound none [] w₁
  have hal₁ : Along (engineProtocol base) i .idle w s₁ w₁ := by
    refine ⟨hw₁, fun r hr => ?_, List.suffix_cons _ _⟩
    cases r with
    | id x => exact hr
    | row l => obtain ⟨t, ht, -⟩ := hr; cases ht
  have hfirst : [m] <:+ s₁.trace := List.suffix_refl _
  have hown₁ := hal₁.own.trans hown
  change wp (engineProtocol base) i _ _ _ _ s₁ w₁
  rw [wp_pure]
  cases hround : RoundsService.liveRound (Local.view .idle w₁).db gameId with
  | none =>
    change wp _ _ _ (RoundsService.tryCreateRound windowMs gameId >>= _) _ _ _ _
    rw [wp_bind]
    refine RoundsService.wp_tryCreateRound rfl (fun com d row _ hwr hc hn => .creation hwr hc hn)
      (fun e s' w' hal => hfail (hal₁.trans hal)) ?_
      fun row com s' w' hown' hproc => hcommit (hown'.trans hown₁) hproc
    intro id opensAt log₂ log₃ s' w' hs₂ hs₃ hs ht hal
    refine .raced (hal.own.trans hown₁) (hfirst.trans hal.trace) ⟨id, opensAt, w₁.log, log₂, log₃, ?_⟩
    exact ⟨hs₂, hs₃, hs, rfl, hw₁.ok.db_eq, ht⟩
  | some round =>
    dsimp only
    split
    · rw [wp_bind]
      refine RoundsService.wp_update rfl (fun _ => rfl) (fun com d _ hup => .opening hup)
        (fun e s' w' hal => hfail (hal₁.trans hal))
        fun hit com s' w' hown' hproc _ => hcommit (hown'.trans hown₁) hproc
    split
    · rw [wp_bind]
      refine RoundsService.wp_update rfl (fun _ => rfl) (fun com d _ hup => .locking hup)
        (fun e s' w' hal => hfail (hal₁.trans hal))
        fun hit com s' w' hown' hproc _ => hcommit (hown'.trans hown₁) hproc
    · have hlive : RoundsService.liveRound m.db gameId ≠ none := by
        rw [show m.db = (Local.view .idle w₁).db from rfl, hround]
        exact Option.some_ne_none _
      exact .idle hown₁ hfirst hlive

theorem engine_verified (base : Db) (allowed : EngineCall → Prop) :
    Verified (engineProtocol base) engineBody allowed (engineDone base) := by
  intro i call w _ hw hown
  cases call with
  | reconcile windowMs gameId => exact reconcile_verified hown
  | finish roundId state => exact finish_verified hown

end Verified

abbrev EngineRun (K : Policy engine) (base : Db) (s : State engine) : Prop :=
  Transactions.Run engineBody Db.Known K base s

namespace EngineRun

variable {K : Policy engine} {base : Db} {s : State engine} (h : EngineRun K base s)
include h

theorem invariant : Invariant (engineProtocol base) (engineDone base) s :=
  Transactions.Run.invariant (engine_verified base K.spawn) h

theorem chronicle : Chronicle EngineMeets base s.world.log := h.invariant.ok.chronicle

theorem outcome {i : ℕ} {p : Proc engine} (hp : s.procs i = some p) {r : Except Err Unit}
    (hr : p.prog.Ends r) :
    ∃ w, Rely (engineProtocol base) i p.loc w s.world ∧ EngineDone base i p.loc w p.call r :=
  h.invariant.outcome hp hr

end EngineRun

end JitoGame
