import JitoGame.Points

namespace JitoGame

open Transactions

structure AdjustPointsDto where
  direction : TxnDirection
  amountMinor : ℤ
  reason : String
  deriving DecidableEq

structure AdjustPointsParams where
  adminId : Uuid
  targetUserId : Uuid
  dto : AdjustPointsDto
  idempotencyKey : Option String
  ip : String
  deriving DecidableEq

structure AdjustPointsResult where
  transactionId : Uuid
  balanceBeforeMinor : String
  balanceAfterMinor : String
  auditLogId : String
  replayed : Bool
  deriving DecidableEq

namespace AdminPointsService

variable {C R : Type}

def referenceType : TxnDirection → TxnRefType
  | .credit => .adminCredit
  | .debit => .adminDebit

def matchesReplay (existing : PointsTransaction) (account : Option PointsAccount)
    (adminLog : Option AdminLog) (params : AdjustPointsParams) : Bool :=
  some existing.accountId = account.map (·.id) ∧ existing.direction = params.dto.direction ∧
    existing.amountMinor = params.dto.amountMinor ∧
    existing.referenceType = referenceType params.dto.direction ∧
    existing.description.getD "" = params.dto.reason ∧
    adminLog.map (·.adminId) = some params.adminId

def findAdminLog : Option Uuid → Prog (schema C R) (Option AdminLog)
  | none => pure none
  | some logId => do
    let v ← Prog.select .findAdminLog
    pure (v.db.adminLogs.find? fun l => l.id = logId)

def replayResult (existing : PointsTransaction) : AdjustPointsResult :=
  ⟨existing.id, toString existing.balanceBeforeMinor, toString existing.balanceAfterMinor,
    (existing.referenceId.map Uuid.text).getD "", true⟩

def findReplay (idempotencyKey : String) (params : AdjustPointsParams) :
    Prog (schema C R) (Option AdjustPointsResult) := do
  let v ← Prog.select .findByIdempotencyKey
  match v.db.transactionOf idempotencyKey with
  | none => pure none
  | some existing =>
    let v ← Prog.select .findAccount
    let account := v.db.accountOf params.targetUserId
    let adminLog ← findAdminLog existing.referenceId
    require (matchesReplay existing account adminLog params = true) .adjustmentIdempotencyKeyReused
    pure (some (replayResult existing))

def logRow (auditLogId : Uuid) (params : AdjustPointsParams) : AdminLog :=
  ⟨auditLogId, params.adminId, "points_adjust", "user", params.targetUserId, params.ip,
    ⟨params.dto.direction, toString params.dto.amountMinor, params.dto.reason⟩⟩

def adjustedResult (auditLogId : Uuid) (ledgerResult : LedgerMutationResult) : AdjustPointsResult :=
  ⟨ledgerResult.transactionId, toString ledgerResult.balanceBeforeMinor,
    toString ledgerResult.balanceAfterMinor, auditLogId.text, false⟩

def adjustmentTransaction (idempotencyKey : String) (params : AdjustPointsParams) :
    Prog (schema C R) AdjustPointsResult := do
  let auditLogId ← Prog.fresh
  let log := logRow auditLogId params
  require (log.fits = true) .databaseError
  -- the foreign key of `admin_id`
  let v ← Prog.exec .insertAdminLog (fun _ => none)
    (fun v => if params.adminId ∈ v.db.adminUsers then [.insertAdminLog log] else [])
  require (params.adminId ∈ v.db.adminUsers) .databaseError
  let ledgerResult ← PointsLedgerService.mutateWithinTransaction
    ⟨params.targetUserId, params.dto.direction, params.dto.amountMinor,
      referenceType params.dto.direction, some auditLogId, idempotencyKey, some params.dto.reason,
      false⟩
  pure (adjustedResult auditLogId ledgerResult)

def runAdjustmentTransaction (idempotencyKey : String) (params : AdjustPointsParams) :
    Prog (schema C R) AdjustPointsResult :=
  Prog.transaction (adjustmentTransaction idempotencyKey params)

def requireKey : Option String → Except Err String
  | none => throw .idempotencyKeyRequired
  | some key => if key = "" then throw .idempotencyKeyRequired else pure key

def adjust (params : AdjustPointsParams) : Prog (schema C R) AdjustPointsResult := do
  let idempotencyKey ← check (requireKey params.idempotencyKey)
  let v ← Prog.select .findUser
  require (params.targetUserId ∈ v.db.users) .notFound
  idempotent (findReplay idempotencyKey params) (runAdjustmentTransaction idempotencyKey params)

end AdminPointsService

end JitoGame
