import JitoGame.MutationTwins
import JitoGame.Transactions.Reads

namespace JitoGame

open Transactions

structure AccountInvariantResult where
  userId : Uuid
  accountId : Uuid
  projectedBalanceMinor : ℤ
  ledgerDerivedBalanceMinor : ℤ
  matched : Bool
  deriving DecidableEq

structure ReconciliationSummary where
  checked : ℕ
  mismatches : List AccountInvariantResult
  deriving DecidableEq

inductive ReconciliationCall
  | verifyAccount (userId : Uuid)
  | verifyAll
  deriving DecidableEq

inductive ReconciliationRes
  | account (result : AccountInvariantResult)
  | summary (summary : ReconciliationSummary)
  deriving DecidableEq

namespace PointsReconciliationService

variable {C R : Type}

-- `SUM(CASE WHEN direction = 'credit' THEN amount_minor ELSE -amount_minor END)`, NULL of no rows
def signedSum (rows : List PointsTransaction) : Option ℤ :=
  if rows = [] then none
  else
    some (rows.map fun t => match t.direction with
      | .credit => t.amountMinor
      | .debit => -t.amountMinor).sum

def computeLedgerDerivedBalance (accountId : Uuid) : Prog (schema C R) ℤ := do
  let v ← Prog.select .sumTransactions
  let derived := (signedSum (v.db.rowsOf accountId)).getD 0
  -- `::bigint`
  check (if fitsBigint derived then .ok derived else .error .databaseError)

def verifyAccount (userId : Uuid) : Prog (schema C R) AccountInvariantResult := do
  let v ← Prog.select .findAccount
  -- `findUniqueOrThrow`
  let account ← check ((v.db.accountOf userId).elim (.error .databaseError) .ok)
  let ledgerDerived ← computeLedgerDerivedBalance account.id
  pure ⟨userId, account.id, account.balanceMinor, ledgerDerived, account.balanceMinor = ledgerDerived⟩

def verifyEach : List PointsAccount → List AccountInvariantResult →
    Prog (schema C R) (List AccountInvariantResult)
  | [], mismatches => pure mismatches
  | account :: accounts, mismatches => do
    let ledgerDerived ← computeLedgerDerivedBalance account.id
    if account.balanceMinor = ledgerDerived then verifyEach accounts mismatches
    else
      verifyEach accounts
        (mismatches ++ [⟨account.userId, account.id, account.balanceMinor, ledgerDerived, false⟩])

def verifyAll : Prog (schema C R) ReconciliationSummary := do
  let v ← Prog.select .findAccounts
  let mismatches ← verifyEach v.db.accounts []
  pure ⟨v.db.accounts.length, mismatches⟩

end PointsReconciliationService

open PointsReconciliationService

abbrev reconciliation : Schema := schema ReconciliationCall ReconciliationRes

def reconciliationBody : ReconciliationCall → Prog reconciliation ReconciliationRes
  | .verifyAccount userId => do return .account (← verifyAccount userId)
  | .verifyAll => do return .summary (← verifyAll)

/-! What the ledger says. -/

namespace Db

def posted (d : Db) (accountId : Uuid) (direction : TxnDirection) : ℤ :=
  (((d.rowsOf accountId).filter fun t => t.direction = direction).map (·.amountMinor)).sum

def ledgerBalance (d : Db) (accountId : Uuid) : ℤ := d.posted accountId .credit - d.posted accountId .debit

def mismatch (d : Db) (a : PointsAccount) : AccountInvariantResult :=
  ⟨a.userId, a.id, a.balanceMinor, d.ledgerBalance a.id, false⟩

def mismatched (d : Db) : List PointsAccount :=
  d.accounts.filter fun a => a.balanceMinor ≠ d.ledgerBalance a.id

end Db

variable {d : Db} {C R : Type}

theorem signed_eq (rows : List PointsTransaction) :
    (rows.map fun t => match t.direction with
      | .credit => t.amountMinor
      | .debit => -t.amountMinor).sum =
    ((rows.filter fun t => t.direction = .credit).map (·.amountMinor)).sum -
      ((rows.filter fun t => t.direction = .debit).map (·.amountMinor)).sum := by
  induction rows with
  | nil => rfl
  | cons t rows ih =>
    rw [List.map_cons, List.sum_cons, ih]
    cases ht : t.direction with
    | credit =>
      simp only [List.filter_cons, ht, decide_true, reduceCtorEq, decide_false, ↓reduceIte,
        Bool.false_eq_true, List.map_cons, List.sum_cons]
      omega
    | debit =>
      simp only [List.filter_cons, ht, decide_true, reduceCtorEq, decide_false, ↓reduceIte,
        Bool.false_eq_true, List.map_cons, List.sum_cons]
      omega

theorem signedSum_eq (d : Db) (accountId : Uuid) :
    (signedSum (d.rowsOf accountId)).getD 0 = d.ledgerBalance accountId := by
  rw [signedSum, Db.ledgerBalance, Db.posted, Db.posted, ← signed_eq]
  split
  · rename_i hnone
    rw [hnone]
    rfl
  · rfl

theorem reads_derived {accountId : Uuid} (h : fitsBigint (d.ledgerBalance accountId) = true) :
    Reads (S := schema C R) d (computeLedgerDerivedBalance accountId) (.ok (d.ledgerBalance accountId)) := by
  apply Reads.select
  intro now
  dsimp only
  rw [signedSum_eq, if_pos h]
  exact .check _

theorem reads_verifyAccount {userId : Uuid} {a : PointsAccount} (ha : d.accountOf userId = some a)
    (h : fitsBigint (d.ledgerBalance a.id) = true) :
    Reads (S := schema C R) d (verifyAccount userId) (.ok ⟨userId, a.id, a.balanceMinor,
      d.ledgerBalance a.id, a.balanceMinor = d.ledgerBalance a.id⟩) := by
  apply Reads.select
  intro now
  dsimp only
  rw [ha]
  exact (Reads.check (.ok a)).bind ((reads_derived h).bind (.ret _))

theorem reads_verifyEach {accounts : List PointsAccount}
    (h : ∀ a ∈ accounts, fitsBigint (d.ledgerBalance a.id) = true)
    (mismatches : List AccountInvariantResult) :
    Reads (S := schema C R) d (verifyEach accounts mismatches) (.ok (mismatches ++
      (accounts.filter fun a => a.balanceMinor ≠ d.ledgerBalance a.id).map d.mismatch)) := by
  induction accounts generalizing mismatches with
  | nil =>
    rw [List.filter_nil, List.map_nil, List.append_nil]
    exact .ret _
  | cons a accounts ih =>
    have hrest := fun mismatches => ih (fun b hb => h b (List.mem_cons_of_mem a hb)) mismatches
    refine (reads_derived (h a List.mem_cons_self)).bind ?_
    by_cases heq : a.balanceMinor = d.ledgerBalance a.id
    · rw [if_pos heq, List.filter_cons_of_neg (by simp [heq])]
      exact hrest mismatches
    · rw [if_neg heq, List.filter_cons_of_pos (by simp [heq]), List.map_cons]
      have happ := hrest (mismatches ++ [d.mismatch a])
      rw [List.append_assoc] at happ
      exact happ

theorem reads_verifyAll (h : ∀ a ∈ d.accounts, fitsBigint (d.ledgerBalance a.id) = true) :
    Reads (S := schema C R) d verifyAll
      (.ok ⟨d.accounts.length, d.mismatched.map d.mismatch⟩) := by
  apply Reads.select
  intro now
  exact (reads_verifyEach h []).bind (.ret _)

/-- Alone, `verifyAll` reports exactly the accounts whose balance is not what the ledger says, and
`verifyAccount` is about whether the account is among them; neither writes. -/
theorem reconciliation_exact (hids : DistinctAccounts d)
    (hfits : ∀ a ∈ d.accounts, fitsBigint (d.ledgerBalance a.id) = true) :
    AnswersAlone (S := reconciliation) reconciliationBody d .verifyAll
      (.ok (.summary ⟨d.accounts.length, d.mismatched.map d.mismatch⟩)) ∧
    ∀ userId a, d.accountOf userId = some a → ∃ res,
      AnswersAlone (S := reconciliation) reconciliationBody d (.verifyAccount userId) (.ok (.account res)) ∧
      res.userId = userId ∧ res.accountId = a.id ∧ res.projectedBalanceMinor = a.balanceMinor ∧
      res.ledgerDerivedBalanceMinor = d.ledgerBalance a.id ∧
      (res.matched = true ↔ ∀ m ∈ d.mismatched.map d.mismatch, m.accountId ≠ a.id) := by
  refine ⟨Reads.answersAlone ((reads_verifyAll hfits).bind (.ret _)), fun userId a ha => ?_⟩
  have hmem : a ∈ d.accounts := List.mem_of_find?_eq_some ha
  refine ⟨⟨userId, a.id, a.balanceMinor, d.ledgerBalance a.id, a.balanceMinor = d.ledgerBalance a.id⟩,
    Reads.answersAlone ((reads_verifyAccount ha (hfits a hmem)).bind (.ret _)), rfl, rfl, rfl, rfl, ?_⟩
  simp only [decide_eq_true_eq]
  constructor
  · intro heq m hm hid
    obtain ⟨b, hb, rfl⟩ := List.mem_map.mp hm
    obtain ⟨hb, hne⟩ := List.mem_filter.mp hb
    obtain rfl := List.inj_on_of_nodup_map hids hb hmem hid
    exact absurd heq (of_decide_eq_true hne)
  · intro hnone
    by_contra hne
    exact hnone (d.mismatch a) (List.mem_map_of_mem (List.mem_filter.mpr ⟨hmem, decide_eq_true hne⟩)) rfl

-- 7 centipoints are missing from the second balance, and the third account has no rows
def corruptedDb : Db :=
  { users := [.ofNat 1, .ofNat 2, .ofNat 3]
    adminUsers := []
    accounts := [⟨.ofNat 11, .ofNat 1, 500, 1⟩, ⟨.ofNat 12, .ofNat 2, 293, 2⟩, ⟨.ofNat 13, .ofNat 3, 0, 0⟩]
    transactions := [
      ⟨.ofNat 21, .ofNat 11, .credit, 500, 0, 500, .adminCredit, none, "a", none, 1⟩,
      ⟨.ofNat 22, .ofNat 12, .credit, 400, 0, 400, .adminCredit, none, "b", none, 2⟩,
      ⟨.ofNat 23, .ofNat 12, .debit, 100, 400, 300, .adminDebit, none, "c", none, 3⟩]
    rounds := []
    bets := []
    betItems := []
    adminLogs := [] }

theorem reconciliation_corrupted :
    AnswersAlone (S := reconciliation) reconciliationBody corruptedDb .verifyAll
      (.ok (.summary ⟨3, [⟨.ofNat 2, .ofNat 12, 293, 300, false⟩]⟩)) := by
  have h := (reconciliation_exact (d := corruptedDb) (by unfold DistinctAccounts; decide) (by decide)).1
  rw [show corruptedDb.mismatched.map corruptedDb.mismatch = [⟨.ofNat 2, .ofNat 12, 293, 300, false⟩] by
    decide] at h
  exact h

end JitoGame
