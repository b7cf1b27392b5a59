import JitoGame.AdminPoints
import JitoGame.Bets
import JitoGame.Rounds

namespace JitoGame

open Transactions

inductive Call
  | applyMutation (params : ApplyLedgerMutationParams)
  | adjust (params : AdjustPointsParams)
  | placeBet (params : PlaceBetParams)
  | reconcile (windowMs : ℕ) (gameId : GameId)
  | openRound (roundId : Uuid)
  | lockIfDeadlinePassed (roundId : Uuid)
  deriving DecidableEq

inductive Res
  | mutation (result : LedgerMutationResult)
  | adjustment (result : AdjustPointsResult)
  | bet (result : PlaceBetResult)
  | reconciled
  | changed (hit : Bool)
  deriving DecidableEq

abbrev sql : Schema := schema Call Res

def body : Call → Prog sql Res
  | .applyMutation params => do return .mutation (← PointsLedgerService.applyMutation params)
  | .adjust params => do return .adjustment (← AdminPointsService.adjust params)
  | .placeBet params => do return .bet (← BetsService.placeBet params)
  | .reconcile windowMs gameId => do
    RoundsService.reconcile windowMs gameId
    return .reconciled
  | .openRound roundId => do return .changed (← RoundsService.openRound roundId)
  | .lockIfDeadlinePassed roundId => do
    return .changed (← RoundsService.lockIfDeadlinePassed roundId)

end JitoGame
