import JitoGame.Errors
import Mathlib.Data.Nat.Notation

namespace JitoGame

inductive GameId
  | tripleChanceTimer
  | tripleChanceProTimer
  deriving DecidableEq

inductive TxnDirection
  | credit
  | debit
  deriving DecidableEq

inductive TxnRefType
  | betPlaced
  | betRefund
  | settlementWin
  | adminCredit
  | adminDebit
  deriving DecidableEq

inductive RoundState
  | created
  | bettingOpen
  | bettingActive
  | bettingLocked
  | resultPending
  | resultPublished
  | settlementPending
  | completed
  | void
  deriving DecidableEq

inductive BetStatus
  | accepted
  | settled
  | refunded
  deriving DecidableEq

structure PointsAccount where
  id : Uuid
  userId : Uuid
  balanceMinor : ℤ
  version : ℤ
  deriving DecidableEq

structure PointsTransaction where
  id : Uuid
  accountId : Uuid
  direction : TxnDirection
  amountMinor : ℤ
  balanceBeforeMinor : ℤ
  balanceAfterMinor : ℤ
  referenceType : TxnRefType
  referenceId : Option Uuid
  idempotencyKey : String
  description : Option String
  createdAt : ℕ
  deriving DecidableEq

structure GameRound where
  id : Uuid
  gameId : GameId
  roundNumber : ℤ
  displayCode : String
  state : RoundState
  stateVersion : ℤ
  opensAt : ℕ
  bettingDeadline : ℕ
  lockedAt : Option ℕ
  deriving DecidableEq

structure Bet where
  id : Uuid
  userId : Uuid
  roundId : Uuid
  totalAmountMinor : ℤ
  status : BetStatus
  idempotencyKey : String
  acceptedAt : ℕ
  deriving DecidableEq

structure BetItem where
  betId : Uuid
  category : BetCategory
  selection : ℤ
  amountMinor : ℤ
  deriving DecidableEq

structure AdjustmentState where
  direction : TxnDirection
  amountMinor : String
  reason : String
  deriving DecidableEq

structure AdminLog where
  id : Uuid
  adminId : Uuid
  action : String
  targetType : String
  targetId : Uuid
  ipAddress : String
  afterState : AdjustmentState
  deriving DecidableEq

structure Db where
  users : List Uuid
  adminUsers : List Uuid
  accounts : List PointsAccount
  transactions : List PointsTransaction
  rounds : List GameRound
  bets : List Bet
  betItems : List BetItem
  adminLogs : List AdminLog

inductive Lock
  | account (id : Uuid)
  | round (id : Uuid)
  -- the keys of the unique indexes
  | ledgerKey (key : String)
  | betKey (userId : Uuid) (key : String)
  | roundNumber (gameId : GameId) (n : ℤ)
  | displayCode (code : String)
  | liveRound (gameId : GameId)
  deriving DecidableEq

inductive Write
  | insertTransaction (row : PointsTransaction)
  | updateAccount (id : Uuid) (balanceMinor : ℤ)
  | insertBet (row : Bet)
  | insertBetItems (rows : List BetItem)
  | insertAdminLog (row : AdminLog)
  | insertRound (row : GameRound)
  | openRound (id : Uuid)
  | lockRound (id : Uuid) (now : ℕ)
  | finishRound (id : Uuid) (state : RoundState)
  deriving DecidableEq

def PointsAccount.set (a : PointsAccount) (balanceMinor : ℤ) : PointsAccount :=
  { a with balanceMinor := balanceMinor, version := a.version + 1 }

-- `LOCKABLE_STATES` and `TERMINAL_STATES`
def RoundState.lockable (s : RoundState) : Bool := s = .bettingOpen ∨ s = .bettingActive

def RoundState.terminal (s : RoundState) : Bool := s = .completed ∨ s = .void

def GameRound.openable (r : GameRound) : Bool := r.state = .created

def GameRound.closable (r : GameRound) (now : ℕ) : Bool :=
  r.state.lockable ∧ r.bettingDeadline ≤ now

def GameRound.finishable (r : GameRound) (state : RoundState) : Bool :=
  r.state = .bettingLocked ∧ state.terminal

def GameRound.opened (r : GameRound) : GameRound :=
  { r with state := .bettingOpen, stateVersion := r.stateVersion + 1 }

def GameRound.locked (r : GameRound) (now : ℕ) : GameRound :=
  { r with state := .bettingLocked, stateVersion := r.stateVersion + 1, lockedAt := some now }

def GameRound.finished (r : GameRound) (state : RoundState) : GameRound :=
  { r with state, stateVersion := r.stateVersion + 1 }

def Write.apply : Write → Db → Db
  | .insertTransaction t, d => { d with transactions := d.transactions ++ [t] }
  | .updateAccount id bal, d =>
    { d with accounts := d.accounts.map fun a => if a.id = id then a.set bal else a }
  | .insertBet b, d => { d with bets := d.bets ++ [b] }
  | .insertBetItems rows, d => { d with betItems := d.betItems ++ rows }
  | .insertAdminLog l, d => { d with adminLogs := d.adminLogs ++ [l] }
  | .insertRound r, d => { d with rounds := d.rounds ++ [r] }
  | .openRound id, d =>
    { d with rounds := d.rounds.map fun r => if r.id = id ∧ r.openable then r.opened else r }
  | .lockRound id now, d =>
    { d with rounds := d.rounds.map fun r => if r.id = id ∧ r.closable now then r.locked now else r }
  | .finishRound id state, d =>
    { d with
      rounds := d.rounds.map fun r => if r.id = id ∧ r.finishable state then r.finished state else r }

namespace Db

def accountOf (d : Db) (userId : Uuid) : Option PointsAccount :=
  d.accounts.find? fun a => a.userId = userId

def roundOf (d : Db) (id : Uuid) : Option GameRound := d.rounds.find? fun r => r.id = id

def transactionOf (d : Db) (key : String) : Option PointsTransaction :=
  d.transactions.find? fun t => t.idempotencyKey = key

def betOf (d : Db) (userId : Uuid) (key : String) : Option Bet :=
  d.bets.find? fun b => b.userId = userId ∧ b.idempotencyKey = key

def debitOf (d : Db) (betId : Uuid) : Option PointsTransaction :=
  d.transactions.find? fun t => t.referenceType = .betPlaced ∧ t.referenceId = some betId

def itemsOf (d : Db) (betId : Uuid) : List BetItem := d.betItems.filter fun i => i.betId = betId

def rowsOf (d : Db) (accountId : Uuid) : List PointsTransaction :=
  d.transactions.filter fun t => t.accountId = accountId

end Db

/-! Column types and CHECK constraints. -/

def fitsBigint (n : ℤ) : Bool := -2 ^ 63 ≤ n ∧ n < 2 ^ 63

def fitsText (s : String) : Bool := !s.toList.contains (Char.ofNat 0)

def fitsVarchar (n : ℕ) (s : String) : Bool := s.length ≤ n ∧ fitsText s

def PointsTransaction.fits (t : PointsTransaction) : Bool :=
  fitsBigint t.amountMinor ∧ fitsBigint t.balanceBeforeMinor ∧ fitsBigint t.balanceAfterMinor ∧
    fitsVarchar 120 t.idempotencyKey ∧ t.description.all fitsText ∧
    0 < t.amountMinor ∧ 0 ≤ t.balanceAfterMinor ∧
    t.balanceAfterMinor = match t.direction with
      | .credit => t.balanceBeforeMinor + t.amountMinor
      | .debit => t.balanceBeforeMinor - t.amountMinor

def Bet.fits (b : Bet) : Bool :=
  fitsBigint b.totalAmountMinor ∧ fitsVarchar 120 b.idempotencyKey ∧ 0 < b.totalAmountMinor

-- `SELECTION_RANGE`, which is also the CHECK constraint of the column
def BetCategory.range : BetCategory → ℤ × ℤ
  | .singles => (0, 9)
  | .doubles => (0, 99)
  | .triples => (0, 999)

def BetItem.fits (i : BetItem) : Bool :=
  fitsBigint i.amountMinor ∧ 0 < i.amountMinor ∧
    i.category.range.1 ≤ i.selection ∧ i.selection ≤ i.category.range.2

def AdminLog.fits (l : AdminLog) : Bool := fitsVarchar 45 l.ipAddress ∧ fitsText l.afterState.reason

def GameRound.fits (r : GameRound) : Bool :=
  fitsBigint r.roundNumber ∧ fitsVarchar 20 r.displayCode

end JitoGame
