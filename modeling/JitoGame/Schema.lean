import JitoGame.Database
import JitoGame.Transactions.Statements

namespace JitoGame

open Transactions

inductive Tag
  | findBet
  | findBetDebit
  | lockRound
  | lockAccount
  | insertBet
  | insertBetItems
  | insertTransaction
  | updateAccount
  | findByIdempotencyKey
  | findUser
  | findAccount
  | findAdminLog
  | insertAdminLog
  | findLiveRound
  | maxRoundNumber
  | insertRound
  | openRound
  | lockIfDeadlinePassed
  -- the phases after the betting, which are not implemented yet
  | finishRound
  -- the reads of the reconciliation
  | findAccounts
  | sumTransactions
  deriving DecidableEq

abbrev schema (Call Res : Type) : Schema where
  Db := Db
  Lock := Lock
  Write := Write
  Id := Uuid
  Tag := Tag
  Call := Call
  Err := Err
  Res := Res
  apply := Write.apply
  fault := .fault

variable {C R α : Type}

abbrev check (x : Except Err α) : Prog (schema C R) α := .check x

abbrev require (p : Prop) [Decidable p] (e : Err) : Prog (schema C R) Unit := .require p e

abbrev insert (tag : Tag) (lock : Lock) (taken : Db → Bool) (ws : List Write) :
    Prog (schema C R) Unit :=
  .insert tag lock taken ws .uniqueViolation

/-- An operation under an idempotency key: a replay is looked for before the transaction, and again
when the transaction was rolled back by a unique violation. -/
def idempotent (findReplay : Prog (schema C R) (Option α)) (run : Prog (schema C R) α) :
    Prog (schema C R) α := do
  match ← findReplay with
  | some existing => pure existing
  | none =>
    try run
    catch err =>
      if err = Err.uniqueViolation then
        match ← findReplay with
        | some raced => pure raced
        | none => throw err
      else throw err

end JitoGame
