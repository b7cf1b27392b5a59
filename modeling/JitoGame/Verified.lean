import JitoGame.AdminVerified
import JitoGame.BetsVerified
import JitoGame.RoundsVerified
import JitoGame.Transactions.Run

namespace JitoGame

open Transactions

theorem verified (base : Db) (allowed : Call → Prop) :
    Verified (protocol base allowed) body allowed (done base) := by
  intro i call w hall hw hown
  cases call with
  | applyMutation params => exact PointsLedgerService.applyMutation_verified hall hw hown
  | adjust params => exact AdminPointsService.adjust_verified hall hw hown
  | placeBet params => exact BetsService.placeBet_verified hall hw hown
  | reconcile windowMs gameId => exact RoundsService.reconcile_verified hall hown
  | openRound roundId => exact RoundsService.openRound_verified hall hown
  | lockIfDeadlinePassed roundId => exact RoundsService.lockIfDeadlinePassed_verified hall hown

abbrev Run (K : Policy sql) (base : Db) (s : State sql) : Prop :=
  Transactions.Run body Db.Known K base s

namespace Run

variable {K : Policy sql} {base : Db} {s : State sql}

theorem invariant (h : Run K base s) : Invariant (protocol base K.spawn) (done base) s :=
  Transactions.Run.invariant (verified base K.spawn) h

theorem chronicle (h : Run K base s) : Chronicle (Meets K.spawn) base s.world.log :=
  h.invariant.ok.chronicle

theorem effects (h : Run K base s) : Chronicle Effect base s.world.log :=
  h.chronicle.imp fun _ _ hc => hc.effect

theorem outcome (h : Run K base s) {i : ℕ} {p : Proc sql} (hp : s.procs i = some p)
    {r : Except Err Res} (hr : p.prog.Ends r) :
    ∃ w, Rely (protocol base K.spawn) i p.loc w s.world ∧ Done base i p.loc w p.call r :=
  h.invariant.outcome hp hr

theorem returns (h : Run K base s) {l : Label sql} (hl : K.ok s l) {s' : State sql}
    (hs : Transactions.step body s l = some s') {i : ℕ} {p : Proc sql} {r : Except Err Res}
    (hp : s'.procs i = some p) (hr : p.prog.Ends r)
    (hrun : ∀ q, s.procs i = some q → ∀ r, ¬ q.prog.Ends r) : Done base i p.loc s'.world p.call r :=
  Transactions.Run.returns (verified base K.spawn) h hl hs hp hr hrun

theorem returned (h : Run K base s) {i : ℕ} {p : Proc sql} (hp : s.procs i = some p)
    {r : Except Err Res} (hr : p.prog.Ends r) :
    ∃ s₀, Run K base s₀ ∧ Transactions.Reachable body K.ok s₀ s ∧
      Done base i p.loc s₀.world p.call r :=
  Transactions.Run.returned (verified base K.spawn) h hp hr

end Run

end JitoGame
