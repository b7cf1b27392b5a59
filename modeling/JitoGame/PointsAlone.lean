import JitoGame.Points
import JitoGame.Transactions.Sequential

namespace JitoGame.PointsLedgerService

open Transactions

theorem validateAccount_error {userId : Uuid} {a : PointsAccount} {direction : TxnDirection} {amountMinor : ℤ}
    {e : Err} (h : validateAccount userId direction amountMinor false (some a) = .error e) :
    balanceAfter direction a.balanceMinor amountMinor < 0 ∧ e.status = some 422 := by
  rw [validateAccount] at h
  split at h
  · rename_i hneg
    cases h
    exact ⟨hneg.2, rfl⟩
  · cases h

theorem validateAccount_ok {userId : Uuid} {a : PointsAccount} {direction : TxnDirection} {amountMinor : ℤ}
    {locked : LockedAccountMutation}
    (h : validateAccount userId direction amountMinor false (some a) = .ok locked) :
    0 ≤ balanceAfter direction a.balanceMinor amountMinor ∧ locked = ⟨a.id, direction, amountMinor,
      a.balanceMinor, balanceAfter direction a.balanceMinor amountMinor⟩ := by
  rw [validateAccount] at h
  split at h
  · cases h
  · rename_i hneg
    cases h
    exact ⟨Int.not_lt.mp fun hlt => hneg ⟨rfl, hlt⟩, rfl⟩

/-! The two halves of `mutateWithinTransaction`, when no one else commits. -/

section Alone

variable {C R : Type} {known : Db → Uuid → Prop} {base : Db} {i start : ℕ} {c : C}
variable {s : Local (schema C R)} {w : World (schema C R)} {ws : List Write}
variable {marks : List (Mark (schema C R))} {E : Err → Local (schema C R) → World (schema C R) → Prop}

theorem wp_lockAndValidateAccount_alone (hw : Still (S := schema C R) known base i w)
    (h : s.Running start ws marks) {userId : Uuid} {direction : TxnDirection} {amountMinor : ℤ}
    {allowOverdraw : Bool} {Q : LockedAccountMutation → Local (schema C R) → World (schema C R) → Prop}
    (hamount : amountMinor ≤ 0 → E .amountNotPositive s w)
    (hE : ∀ s' w', s'.faulted = true → Still (S := schema C R) known base i w' → E .fault s' w')
    (hrefuse : ∀ e s' w', 0 < amountMinor → s'.Running start ws marks →
      Still (S := schema C R) known base i w' →
      validateAccount userId direction amountMinor allowOverdraw
        (Db.accountOf (applyAll (S := schema C R) ws base) userId) = .error e → E e s' w')
    (hQ : ∀ locked s' w', 0 < amountMinor → s'.Running start ws marks →
      Still (S := schema C R) known base i w' →
      validateAccount userId direction amountMinor allowOverdraw
        (Db.accountOf (applyAll (S := schema C R) ws base) userId) = .ok locked → Q locked s' w') :
    wp (.sole known base i) i c (lockAndValidateAccount userId direction amountMinor allowOverdraw)
      Q E s w := by
  rw [lockAndValidateAccount, wp_bind, wp_check, assertPositiveAmount]
  by_cases hpos : amountMinor ≤ 0
  · rw [if_pos hpos]
    refine ⟨fun _ ha => (by cases ha), fun e he => ?_⟩
    cases he
    exact hamount hpos
  · rw [if_neg hpos]
    refine ⟨fun _ _ => ?_, fun _ he => by cases he⟩
    have hpos := Int.not_le.mp hpos
    rw [wp_bind]
    apply hw.wp_exec h hE
    intro m s' w' _ _ hrun hw'
    rw [List.append_nil] at hrun
    rw [wp_check]
    exact ⟨fun locked hl => hQ locked s' w' hpos hrun.older hw' hl,
      fun e he => hrefuse e s' w' hpos hrun.older hw' he⟩

theorem wp_commitMutation_alone (hw : Still (S := schema C R) known base i w)
    (h : s.Running start ws marks) {locked : LockedAccountMutation} {ref : LedgerReference}
    {Q : LedgerMutationResult → Local (schema C R) → World (schema C R) → Prop}
    (hfree : Db.transactionOf (applyAll (S := schema C R) ws base) ref.idempotencyKey = none)
    (hE : ∀ s' w', s'.faulted = true → Still (S := schema C R) known base i w' → E .fault s' w')
    (hfits : ∀ id n s' w', s'.Running start ws marks → Still (S := schema C R) known base i w' →
      (transactionRow locked ref id n).fits = false → E .databaseError s' w')
    (hQ : ∀ result row s' w', row.fits = true → (∃ id n, row = transactionRow locked ref id n) →
      s'.Running start (ws ++ [.insertTransaction row, .updateAccount row.accountId row.balanceAfterMinor])
        marks → Still (S := schema C R) known base i w' → Q result s' w') :
    wp (.sole known base i) i c (commitMutation locked ref) Q E s w := by
  rw [commitMutation, wp_bind]
  apply hw.wp_fresh
  intro id w₁ _ hw₁
  have hrun := h.mint id
  rw [wp_bind]
  apply hw₁.wp_outside
  intro n w₂ hw₂
  rw [wp_bind, wp_require]
  refine ⟨fun hfit => ?_, fun hfit => hfits id n _ w₂ hrun hw₂ (by simpa using hfit)⟩
  rw [wp_bind]
  apply hw₂.wp_insert hrun hE (Option.isSome_eq_false_iff.mpr (Option.isNone_iff_eq_none.mpr hfree))
  intro s₃ w₃ hrun₃ hw₃
  rw [wp_bind]
  apply hw₃.wp_exec hrun₃ hE
  intro m s₄ w₄ _ _ hrun₄ hw₄
  rw [List.append_assoc] at hrun₄
  exact hQ _ (transactionRow locked ref id n) s₄ w₄ hfit ⟨id, n, rfl⟩ hrun₄.older hw₄

end Alone

end JitoGame.PointsLedgerService
