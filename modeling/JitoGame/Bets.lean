import JitoGame.Points

namespace JitoGame

open Transactions

structure PlaceBetItemDto where
  category : BetCategory
  selection : ℤ
  amountMinor : ℤ
  deriving DecidableEq

structure PlaceBetDto where
  roundId : String
  gameId : GameId
  items : List PlaceBetItemDto
  deriving DecidableEq

structure PlaceBetParams where
  userId : Uuid
  idempotencyKey : Option String
  dto : PlaceBetDto
  deriving DecidableEq

structure PlaceBetResult where
  betId : Uuid
  roundId : String
  totalAmountMinor : ℤ
  balanceMinor : ℤ
  status : BetStatus
  acceptedAt : ℕ
  replayed : Bool
  deriving DecidableEq

structure MergedItem where
  category : BetCategory
  selection : ℤ
  amountMinor : ℤ
  deriving DecidableEq

structure Placement where
  idempotencyKey : String
  merged : List MergedItem
  totalAmountMinor : ℤ
  deriving DecidableEq

structure RoundLockRow where
  id : Uuid
  gameId : GameId
  state : RoundState
  deadlinePassed : Bool

def utf16Length (s : String) : ℕ := (s.toList.map fun c => if c.toNat < 65536 then 1 else 2).sum

-- `Number.MAX_SAFE_INTEGER`
def maxSafeAmount : ℤ := 2 ^ 53 - 1

def isSafeInteger (n : ℤ) : Bool := -maxSafeAmount ≤ n ∧ n ≤ maxSafeAmount

/-- `Number(n)` of a bigint below `2 ^ 63`: the nearest double, ties to even. -/
def centipointsToNumber (n : ℤ) : ℤ :=
  let m := n.natAbs
  let unit := 2 ^ (m.log2 - 52)
  let q := m / unit
  let twice := 2 * (m % unit)
  let rounded := if unit < twice ∨ (twice = unit ∧ q % 2 = 1) then q + 1 else q
  n.sign * (rounded * unit : ℕ)

namespace BetsService

variable {C R : Type}

def itemKey (category : BetCategory) (selection : ℤ) : String :=
  category.text ++ ":" ++ toString selection

def unsafeSelection (category : BetCategory) (selection : ℤ) : Err :=
  .unsafeAmount ("selection '" ++ itemKey category selection ++ "'")

/-- One turn of the loop of `mergeItems`. The list stands for the `Map`, in insertion order. -/
def mergeItem (byKey : List MergedItem) (item : PlaceBetItemDto) : Except Err (List MergedItem) :=
  let key := itemKey item.category item.selection
  if !isSafeInteger item.amountMinor ∨ item.amountMinor ≤ 0 then
    throw (unsafeSelection item.category item.selection)
  else if byKey.any fun m => itemKey m.category m.selection = key then
    pure (byKey.map fun m =>
      if itemKey m.category m.selection = key then
        { m with amountMinor := m.amountMinor + item.amountMinor }
      else m)
  else pure (byKey ++ [⟨item.category, item.selection, item.amountMinor⟩])

def mergeItems (items : List PlaceBetItemDto) : Except Err (List MergedItem) :=
  items.foldlM mergeItem []

def validateSelectionRanges (items : List MergedItem) : Except Err Unit :=
  items.forM fun item =>
    if item.selection < item.category.range.1 ∨ item.category.range.2 < item.selection then
      throw (.invalidSelection item.category item.selection)
    else pure ()

def validateSafeAmounts (items : List MergedItem) (totalAmountMinor : ℤ) : Except Err Unit := do
  items.forM fun item =>
    if maxSafeAmount < item.amountMinor then throw (unsafeSelection item.category item.selection)
    else pure ()
  if maxSafeAmount < totalAmountMinor then throw (.unsafeAmount "the total bet amount")

def totalOf (items : List MergedItem) : ℤ := items.foldl (fun sum item => sum + item.amountMinor) 0

def validateKey : Option String → Except Err String
  | none => throw .idempotencyKeyRequired
  | some key =>
    if key = "" then throw .idempotencyKeyRequired
    else if maxIdempotencyKeyLength < utf16Length key then throw .idempotencyKeyTooLong
    else pure key

def validate (params : PlaceBetParams) : Except Err Placement := do
  let idempotencyKey ← validateKey params.idempotencyKey
  let merged ← mergeItems params.dto.items
  validateSelectionRanges merged
  let totalAmountMinor := totalOf merged
  validateSafeAmounts merged totalAmountMinor
  pure ⟨idempotencyKey, merged, totalAmountMinor⟩

def itemsMatch (existingItems : List BetItem) (merged : List MergedItem) : Bool :=
  -- a later entry of `new Map(…)` replaces an earlier one with its key
  let existingByKey (key : String) :=
    (existingItems.reverse.find? fun i => itemKey i.category i.selection = key).map (·.amountMinor)
  existingItems.length = merged.length ∧
    merged.all fun m => existingByKey (itemKey m.category m.selection) = some m.amountMinor

def ledgerIdempotencyKey (betId : Uuid) : String := "bet-debit:" ++ betId.text

def description (roundId : String) : String := "Bet on round " ++ roundId

def matchesReplay (existing : Bet) (items : List BetItem) (roundId : String) (p : Placement) : Bool :=
  existing.roundId.text = roundId ∧ existing.totalAmountMinor = p.totalAmountMinor ∧
    itemsMatch items p.merged

def replayResult (existing : Bet) (ledgerRow : Option PointsTransaction) : PlaceBetResult :=
  let balanceAfterMinor := (ledgerRow.map (·.balanceAfterMinor)).getD 0
  ⟨existing.id, existing.roundId.text, centipointsToNumber existing.totalAmountMinor,
    centipointsToNumber balanceAfterMinor, existing.status, existing.acceptedAt, true⟩

def findReplay (userId : Uuid) (roundId : String) (p : Placement) :
    Prog (schema C R) (Option PlaceBetResult) := do
  let v ← Prog.select .findBet
  match v.db.betOf userId p.idempotencyKey with
  | none => pure none
  | some existing =>
    require (matchesReplay existing (v.db.itemsOf existing.id) roundId p = true)
      .betIdempotencyKeyReused
    let v ← Prog.select .findBetDebit
    pure (some (replayResult existing (v.db.debitOf existing.id)))

def lockRow (d : Db) (id : Uuid) (now : ℕ) : Option RoundLockRow :=
  (d.roundOf id).map fun r => ⟨r.id, r.gameId, r.state, r.bettingDeadline ≤ now⟩

def lockRound (roundId : String) : Prog (schema C R) (Option RoundLockRow) :=
  match Uuid.parse roundId with
  | none => throw Err.databaseError
  | some id => do
    let v ← Prog.exec .lockRound (fun v => (v.db.roundOf id).map fun r => .round r.id) (fun _ => [])
    pure (lockRow v.db id v.now)

def validateRound (gameId : GameId) : Option RoundLockRow → Except Err RoundLockRow
  | none => throw .notFound
  | some round =>
    if round.gameId ≠ gameId then throw .roundMismatch
    else if round.state ≠ .bettingOpen ∧ round.state ≠ .bettingActive then throw .roundNotAccepting
    else if round.deadlinePassed then throw .deadlinePassed
    else pure round

def betRow (betId userId roundId : Uuid) (p : Placement) (acceptedAt : ℕ) : Bet :=
  ⟨betId, userId, roundId, p.totalAmountMinor, .accepted, p.idempotencyKey, acceptedAt⟩

def itemRows (betId : Uuid) (p : Placement) : List BetItem :=
  p.merged.map fun m => ⟨betId, m.category, m.selection, m.amountMinor⟩

def placedResult (bet : Bet) (roundId : String) (ledgerResult : LedgerMutationResult) :
    PlaceBetResult :=
  ⟨bet.id, roundId, centipointsToNumber bet.totalAmountMinor,
    centipointsToNumber ledgerResult.balanceAfterMinor, bet.status, bet.acceptedAt, false⟩

def placementTransaction (userId : Uuid) (dto : PlaceBetDto) (p : Placement) :
    Prog (schema C R) PlaceBetResult := do
  let row ← lockRound dto.roundId
  let round ← check (validateRound dto.gameId row)
  let locked ← PointsLedgerService.lockAndValidateAccount userId .debit p.totalAmountMinor false
  let betId ← Prog.fresh
  let acceptedAt ← Prog.outside
  let bet := betRow betId userId round.id p acceptedAt
  require (bet.fits = true) .databaseError
  insert .insertBet (.betKey userId p.idempotencyKey)
    (fun d => (d.betOf userId p.idempotencyKey).isSome) [.insertBet bet]
  require ((itemRows betId p).all BetItem.fits = true) .databaseError
  let _ ← Prog.exec .insertBetItems (fun _ => none) (fun _ => [.insertBetItems (itemRows betId p)])
  let ledgerResult ← PointsLedgerService.commitMutation locked
    ⟨.betPlaced, some betId, ledgerIdempotencyKey betId, some (description dto.roundId)⟩
  pure (placedResult bet dto.roundId ledgerResult)

def runPlacementTransaction (userId : Uuid) (dto : PlaceBetDto) (p : Placement) :
    Prog (schema C R) PlaceBetResult :=
  Prog.transaction (placementTransaction userId dto p)

def placeBet (params : PlaceBetParams) : Prog (schema C R) PlaceBetResult := do
  let p ← check (validate params)
  idempotent (findReplay params.userId params.dto.roundId p)
    (runPlacementTransaction params.userId params.dto p)

end BetsService

end JitoGame
