import JitoGame.AdminPoints

namespace JitoGame

open Transactions

/-- A request as the controller receives it behind its guards: the id is that of the signed-in admin, the
path parameter and the header are any strings. -/
structure AdjustRequest where
  adminId : Uuid
  targetUserId : String
  dto : AdjustPointsDto
  idempotencyKey : Option String
  ip : String
  deriving DecidableEq

-- the bound is `Number.MAX_SAFE_INTEGER`
def AdjustPointsDto.valid (dto : AdjustPointsDto) : Bool :=
  0 < dto.amountMinor ∧ dto.amountMinor ≤ 2 ^ 53 - 1 ∧ 1 ≤ dto.reason.length ∧ dto.reason.length ≤ 500

namespace AdminPointsController

open AdminPointsService

abbrev requests : Schema := schema AdjustRequest AdjustPointsResult

-- `${params.userId}::uuid`
def mutateWithinTransaction (userId : String) (params : ApplyLedgerMutationParams) :
    Prog requests LedgerMutationResult := do
  check (PointsLedgerService.assertPositiveAmount params.amountMinor)
  match Uuid.parse userId with
  | none => throw Err.databaseError
  | some userId => PointsLedgerService.mutateWithinTransaction { params with userId }

def adjustmentTransaction (idempotencyKey : String) (targetUserId : String) (params : AdjustPointsParams) :
    Prog requests AdjustPointsResult := do
  let auditLogId ← Prog.fresh
  let log := logRow auditLogId params
  require (log.fits = true) .databaseError
  let v ← Prog.exec .insertAdminLog (fun _ => none)
    (fun v => if params.adminId ∈ v.db.adminUsers then [.insertAdminLog log] else [])
  require (params.adminId ∈ v.db.adminUsers) .databaseError
  let ledgerResult ← mutateWithinTransaction targetUserId
    ⟨params.targetUserId, params.dto.direction, params.dto.amountMinor,
      referenceType params.dto.direction, some auditLogId, idempotencyKey, some params.dto.reason,
      false⟩
  pure (adjustedResult auditLogId ledgerResult)

-- PostgreSQL refuses a parameter with a NUL
def findReplay (idempotencyKey : String) (params : AdjustPointsParams) :
    Prog requests (Option AdjustPointsResult) := do
  require (fitsText idempotencyKey = true) .databaseError
  AdminPointsService.findReplay idempotencyKey params

/-- `readUuid` is what the client library makes of a text that is compared with a uuid column; it raises
an error where there is none. -/
def adjust (readUuid : String → Option Uuid) (req : AdjustRequest) : Prog requests AdjustPointsResult := do
  let idempotencyKey ← check (requireKey req.idempotencyKey)
  match readUuid req.targetUserId with
  | none => throw Err.databaseError
  | some targetUserId =>
    let params : AdjustPointsParams := ⟨req.adminId, targetUserId, req.dto, req.idempotencyKey, req.ip⟩
    let v ← Prog.select .findUser
    require (targetUserId ∈ v.db.users) .notFound
    idempotent (findReplay idempotencyKey params)
      (Prog.transaction (adjustmentTransaction idempotencyKey req.targetUserId params))

variable {readUuid : String → Option Uuid} {req : AdjustRequest} {key : String} {id : Uuid}

/-! On the parsed id the request is the call of the service. -/

def paramsOf (req : AdjustRequest) (targetUserId : Uuid) : AdjustPointsParams :=
  ⟨req.adminId, targetUserId, req.dto, req.idempotencyKey, req.ip⟩

theorem mutateWithinTransaction_eq {userId : String} {params : ApplyLedgerMutationParams}
    (h : Uuid.parse userId = some params.userId) (hpos : 0 < params.amountMinor) :
    mutateWithinTransaction userId params = PointsLedgerService.mutateWithinTransaction params := by
  have hamount : PointsLedgerService.assertPositiveAmount params.amountMinor = .ok () :=
    if_neg (Int.not_le.mpr hpos)
  simp only [mutateWithinTransaction, h, hamount]
  rfl

theorem requireKey_ok {given : Option String} (h : requireKey given = .ok key) : given = some key := by
  cases given with
  | none => cases h
  | some value =>
    rw [requireKey] at h
    split at h <;> cases h
    rfl

theorem adjust_eq (hread : readUuid req.targetUserId = some id)
    (hparse : Uuid.parse req.targetUserId = some id) (hpos : 0 < req.dto.amountMinor)
    (hkey : ∀ key ∈ req.idempotencyKey, fitsText key = true) :
    adjust readUuid req = AdminPointsService.adjust (paramsOf req id) := by
  have htransaction (key : String) : adjustmentTransaction key req.targetUserId (paramsOf req id) =
      AdminPointsService.adjustmentTransaction key (paramsOf req id) := by
    have hmutate (auditLogId : Uuid) : mutateWithinTransaction req.targetUserId ⟨id, req.dto.direction,
        req.dto.amountMinor, referenceType req.dto.direction, some auditLogId, key, some req.dto.reason,
        false⟩ = PointsLedgerService.mutateWithinTransaction _ := mutateWithinTransaction_eq hparse hpos
    simp only [adjustmentTransaction, AdminPointsService.adjustmentTransaction, paramsOf, hmutate]
  have hreplay (key : String) (hfits : fitsText key = true) : findReplay key (paramsOf req id) =
      AdminPointsService.findReplay key (paramsOf req id) := by
    rw [findReplay, require, Prog.require, if_pos hfits]
    rfl
  rw [adjust, AdminPointsService.adjust]
  cases hreq : requireKey req.idempotencyKey with
  | error e =>
    simp only [paramsOf, hreq]
    rfl
  | ok key =>
    have hfits : fitsText key = true := hkey key (requireKey_ok hreq)
    have hbind (f : String → Prog requests AdjustPointsResult) : check (.ok key) >>= f = f key := rfl
    simp only [paramsOf] at htransaction hreplay
    simp only [paramsOf, hreq, hbind, hread, hreplay key hfits, htransaction, runAdjustmentTransaction]
    rfl

end AdminPointsController

end JitoGame
