import JitoGame.Schema

namespace JitoGame

open Transactions

structure ApplyLedgerMutationParams where
  userId : Uuid
  direction : TxnDirection
  amountMinor : ℤ
  referenceType : TxnRefType
  referenceId : Option Uuid
  idempotencyKey : String
  description : Option String
  allowOverdraw : Bool
  deriving DecidableEq

structure LockedAccountMutation where
  accountId : Uuid
  direction : TxnDirection
  amountMinor : ℤ
  balanceBeforeMinor : ℤ
  balanceAfterMinor : ℤ

structure LedgerReference where
  referenceType : TxnRefType
  referenceId : Option Uuid
  idempotencyKey : String
  description : Option String

structure LedgerMutationResult where
  transactionId : Uuid
  direction : TxnDirection
  amountMinor : ℤ
  balanceBeforeMinor : ℤ
  balanceAfterMinor : ℤ
  referenceType : TxnRefType
  referenceId : Option Uuid
  idempotencyKey : String
  description : Option String
  createdAt : ℕ
  replayed : Bool
  deriving DecidableEq

namespace PointsLedgerService

variable {C R : Type}

def toResult (row : PointsTransaction) (replayed : Bool) : LedgerMutationResult :=
  ⟨row.id, row.direction, row.amountMinor, row.balanceBeforeMinor, row.balanceAfterMinor,
    row.referenceType, row.referenceId, row.idempotencyKey, row.description, row.createdAt, replayed⟩

def assertPositiveAmount (amountMinor : ℤ) : Except Err Unit :=
  if amountMinor ≤ 0 then throw .amountNotPositive else pure ()

def withUser (d : Db) (row : PointsTransaction) : Option (PointsTransaction × Uuid) :=
  (d.accounts.find? fun a => a.id = row.accountId).map fun account => (row, account.userId)

def findByIdempotencyKey (idempotencyKey : String) :
    Prog (schema C R) (Option (PointsTransaction × Uuid)) := do
  let v ← Prog.select .findByIdempotencyKey
  pure ((v.db.transactionOf idempotencyKey).bind (withUser v.db))

def assertReplayMatches (existing : PointsTransaction × Uuid) (params : ApplyLedgerMutationParams) :
    Except Err Unit :=
  if existing.2 = params.userId ∧ existing.1.direction = params.direction ∧
      existing.1.amountMinor = params.amountMinor ∧
      existing.1.referenceType = params.referenceType ∧
      existing.1.referenceId = params.referenceId then
    pure ()
  else throw .ledgerIdempotencyKeyReused

def balanceAfter (direction : TxnDirection) (balanceBeforeMinor amountMinor : ℤ) : ℤ :=
  match direction with
  | .credit => balanceBeforeMinor + amountMinor
  | .debit => balanceBeforeMinor - amountMinor

def validateAccount (userId : Uuid) (direction : TxnDirection) (amountMinor : ℤ)
    (allowOverdraw : Bool) : Option PointsAccount → Except Err LockedAccountMutation
  | none => throw (.noPointsAccount userId)
  | some account =>
    let balanceAfterMinor := balanceAfter direction account.balanceMinor amountMinor
    if !allowOverdraw ∧ balanceAfterMinor < 0 then
      throw (.insufficientPoints amountMinor account.balanceMinor)
    else
      pure ⟨account.id, direction, amountMinor, account.balanceMinor, balanceAfterMinor⟩

def lockAndValidateAccount (userId : Uuid) (direction : TxnDirection) (amountMinor : ℤ)
    (allowOverdraw : Bool) : Prog (schema C R) LockedAccountMutation := do
  check (assertPositiveAmount amountMinor)
  let v ← Prog.exec .lockAccount (fun v => (v.db.accountOf userId).map fun a => .account a.id)
    (fun _ => [])
  check (validateAccount userId direction amountMinor allowOverdraw (v.db.accountOf userId))

def transactionRow (locked : LockedAccountMutation) (ref : LedgerReference) (id : Uuid)
    (createdAt : ℕ) : PointsTransaction :=
  ⟨id, locked.accountId, locked.direction, locked.amountMinor, locked.balanceBeforeMinor,
    locked.balanceAfterMinor, ref.referenceType, ref.referenceId, ref.idempotencyKey,
    ref.description, createdAt⟩

def commitMutation (locked : LockedAccountMutation) (ref : LedgerReference) :
    Prog (schema C R) LedgerMutationResult := do
  let id ← Prog.fresh
  let createdAt ← Prog.outside
  let row := transactionRow locked ref id createdAt
  require (row.fits = true) .databaseError
  insert .insertTransaction (.ledgerKey row.idempotencyKey)
    (fun d => (d.transactionOf row.idempotencyKey).isSome) [.insertTransaction row]
  let _ ← Prog.exec .updateAccount (fun _ => some (.account locked.accountId))
    (fun _ => [.updateAccount locked.accountId locked.balanceAfterMinor])
  pure (toResult row false)

def mutateWithinTransaction (params : ApplyLedgerMutationParams) :
    Prog (schema C R) LedgerMutationResult := do
  let locked ← lockAndValidateAccount params.userId params.direction params.amountMinor
    params.allowOverdraw
  commitMutation locked ⟨params.referenceType, params.referenceId, params.idempotencyKey,
    params.description⟩

def findReplay (params : ApplyLedgerMutationParams) :
    Prog (schema C R) (Option LedgerMutationResult) := do
  match ← findByIdempotencyKey params.idempotencyKey with
  | none => pure none
  | some existing =>
    check (assertReplayMatches existing params)
    pure (some (toResult existing.1 true))

def applyMutation (params : ApplyLedgerMutationParams) : Prog (schema C R) LedgerMutationResult := do
  check (assertPositiveAmount params.amountMinor)
  idempotent (findReplay params) (Prog.transaction (mutateWithinTransaction params))

end PointsLedgerService

end JitoGame
