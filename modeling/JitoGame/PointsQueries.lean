import JitoGame.Bets

namespace JitoGame

structure BalanceResponse where
  balanceMinor : ℤ
  updatedAt : ℕ
  deriving DecidableEq

structure TransactionListItem where
  id : Uuid
  direction : TxnDirection
  amountMinor : ℤ
  balanceBeforeMinor : ℤ
  balanceAfterMinor : ℤ
  referenceType : TxnRefType
  referenceId : Option Uuid
  description : Option String
  createdAt : ℕ
  deriving DecidableEq

structure ListMeta where
  page : ℕ
  limit : ℕ
  total : ℕ
  totalPages : ℕ
  deriving DecidableEq

structure TransactionListResponse where
  data : List TransactionListItem
  listMeta : ListMeta
  deriving DecidableEq

structure ListTransactionsQueryDto where
  page : Option ℕ
  limit : Option ℕ
  fromDate : Option ℕ
  toDate : Option ℕ
  referenceType : Option TxnRefType
  deriving DecidableEq

namespace PointsService

/-- An account's `updatedAt` is a column that no other modelled function reads. `none` stands for
the error of `findUniqueOrThrow`. -/
def getBalance (d : Db) (updatedAt : Uuid → ℕ) (userId : Uuid) : Option BalanceResponse :=
  (d.accountOf userId).map fun account =>
    ⟨centipointsToNumber account.balanceMinor, updatedAt account.id⟩

def selects (query : ListTransactionsQueryDto) (t : PointsTransaction) : Bool :=
  (query.referenceType.all fun r => t.referenceType = r) ∧
    (query.fromDate.all fun date => date ≤ t.createdAt) ∧
    query.toDate.all fun date => t.createdAt ≤ date

-- `orderBy: { createdAt: 'desc' }`; the database orders rows of one instant as it likes
def listedBefore (ties : PointsTransaction → ℕ) (t t' : PointsTransaction) : Bool :=
  t'.createdAt < t.createdAt ∨ t'.createdAt = t.createdAt ∧ ties t ≤ ties t'

def toListItem (row : PointsTransaction) : TransactionListItem :=
  ⟨row.id, row.direction, centipointsToNumber row.amountMinor,
    centipointsToNumber row.balanceBeforeMinor, centipointsToNumber row.balanceAfterMinor,
    row.referenceType, row.referenceId, row.description, row.createdAt⟩

def listTransactions (d : Db) (ties : PointsTransaction → ℕ) (userId : Uuid)
    (query : ListTransactionsQueryDto) : Option TransactionListResponse :=
  let page := query.page.getD 1
  let limit := query.limit.getD 20
  (d.accountOf userId).map fun account =>
    let found := (d.rowsOf account.id).filter (selects query)
    let rows := ((found.mergeSort (listedBefore ties)).drop ((page - 1) * limit)).take limit
    ⟨rows.map toListItem, page, limit, found.length, (found.length + limit - 1) / limit⟩

end PointsService

end JitoGame
