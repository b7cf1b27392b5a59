import JitoGame.Web.GameTCView
import JitoGame.Web.Loops

namespace JitoGame.Web

open Tallies

variable {g g' : GameState} {a : Action}

namespace GameState

def gap (g : GameState) : ℤ := g.playStake - tallied g.bets

structure Funded (g : GameState) : Prop where
  chip : 0 < g.selectedChip
  chips : ∀ c ∈ g.availableChips, 0 < c
  bets : Positive g.bets
  previousBets : Positive g.previousBets
  gap : 0 ≤ g.gap
  balance : 0 ≤ g.pointsBalance

structure Acted (g g' : GameState) : Prop where
  funded : Funded g'
  conserved : g'.pointsBalance + g'.playStake = g.pointsBalance + g.playStake
  phase : g'.phase = g.phase
  winAmount : g'.winAmount = g.winAmount
  drawResult : g'.drawResult = g.drawResult
  previousBets : g'.previousBets = g.previousBets

theorem Acted.refl (h : Funded g) : Acted g g := ⟨h, rfl, rfl, rfl, rfl, rfl⟩

theorem Acted.say (h : Funded g) (statusMessage : String) : Acted g (g.say statusMessage) :=
  ⟨⟨h.chip, h.chips, h.bets, h.previousBets, h.gap, h.balance⟩, rfl, rfl, rfl, rfl, rfl⟩

theorem Acted.stake (h : Funded g) {cost : ℤ} {bets : Bets} (hc : cost ≤ g.pointsBalance)
    (hb : Positive bets) (ht : tallied bets ≤ tallied g.bets + cost) : Acted g (g.stake cost bets) := by
  have hgap := h.gap
  refine ⟨⟨h.chip, h.chips, hb, h.previousBets, ?_, ?_⟩, ?_, rfl, rfl, rfl, rfl⟩ <;>
    simp only [GameState.stake, GameState.gap] at hgap ⊢ <;> omega

theorem Funded.refund_playStake (h : Funded g) {refunded : ℤ} {bets : Bets} (hb : Positive bets)
    (ht : tallied bets + refunded = tallied g.bets) :
    (g.refund refunded bets).playStake = g.playStake - refunded := by
  have hgap := h.gap
  have hnonneg := hb.tallied_nonneg
  simp only [GameState.refund, GameState.gap] at hgap ⊢
  omega

theorem Acted.refund (h : Funded g) {refunded : ℤ} {bets : Bets} (hr : 0 ≤ refunded)
    (hb : Positive bets) (ht : tallied bets + refunded = tallied g.bets) :
    Acted g (g.refund refunded bets) := by
  have hstake := h.refund_playStake hb ht
  have hgap := h.gap
  have hbalance := h.balance
  refine ⟨⟨h.chip, h.chips, hb, h.previousBets, ?_, ?_⟩, ?_, rfl, rfl, rfl, rfl⟩
  · rw [GameState.gap, hstake]
    change 0 ≤ _ - tallied bets
    rw [GameState.gap] at hgap
    omega
  · exact Int.add_nonneg hbalance hr
  · rw [hstake]
    change g.pointsBalance + refunded + _ = _
    omega

theorem gap_stake {cost : ℤ} {bets : Bets} (ht : tallied bets = tallied g.bets + cost) :
    (g.stake cost bets).gap = g.gap := by
  simp only [GameState.stake, GameState.gap, ht]
  omega

theorem gap_refund (h : Funded g) {refunded : ℤ} {bets : Bets} (hb : Positive bets)
    (ht : tallied bets + refunded = tallied g.bets) : (g.refund refunded bets).gap = g.gap := by
  rw [GameState.gap, h.refund_playStake hb ht]
  change _ - tallied bets = _
  rw [GameState.gap]
  omega

structure Exact (g g' : GameState) : Prop extends Acted g g' where
  same : g'.gap = g.gap

theorem Exact.refl (h : Funded g) : Exact g g := ⟨.refl h, rfl⟩

theorem Exact.say (h : Funded g) (statusMessage : String) : Exact g (g.say statusMessage) :=
  ⟨.say h statusMessage, rfl⟩

theorem Exact.stake (h : Funded g) {cost : ℤ} {bets : Bets} (hc : cost ≤ g.pointsBalance)
    (hb : Positive bets) (ht : tallied bets = tallied g.bets + cost) : Exact g (g.stake cost bets) :=
  ⟨.stake h hc hb (le_of_eq ht), gap_stake ht⟩

theorem Exact.refund (h : Funded g) {refunded : ℤ} {bets : Bets} (hr : 0 ≤ refunded)
    (hb : Positive bets) (ht : tallied bets + refunded = tallied g.bets) :
    Exact g (g.refund refunded bets) :=
  ⟨.refund h hr hb ht, gap_refund h hb ht⟩

theorem handlePlaceBet_exact (h : Funded g) (type : BetType) (value : ℕ) :
    Exact g (g.handlePlaceBet type value) := by
  rw [handlePlaceBet]
  split
  · exact .refl h
  · dsimp only
    split
    · exact .say h _
    · rename_i hbalance
      have hpos := Int.add_pos_of_nonneg_of_pos (h.bets.nonneg (cellKey type value)) h.chip
      refine .stake h (Int.not_lt.mp hbalance) (h.bets.insert hpos) ?_
      rw [tallied_insert]
      omega

theorem removal_spec (h : Funded g) (key : String) :
    Positive (lowered g.bets key (amount g.bets key) (min (amount g.bets key) g.selectedChip)) ∧
      tallied (lowered g.bets key (amount g.bets key) (min (amount g.bets key) g.selectedChip)) +
        min (amount g.bets key) g.selectedChip = tallied g.bets := by
  obtain ⟨hp, ht⟩ := lowered_spec h.bets g.selectedChip key
  exact ⟨hp, by omega⟩

theorem handleRemoveBet_exact (h : Funded g) (type : BetType) (value : ℕ) :
    Exact g (g.handleRemoveBet type value) := by
  rw [handleRemoveBet]
  split
  · exact .refl h
  · dsimp only
    split
    · exact .refl h
    · obtain ⟨hp, ht⟩ := removal_spec h (cellKey type value)
      exact .refund h (le_min (h.bets.nonneg _) (le_of_lt h.chip)) hp ht

theorem quick_exact (h : Funded g) {keys : List String} (hk : keys.length = 10) :
    Exact g (g.quick keys) := by
  rw [quick]
  split
  · exact .refl h
  · dsimp only
    split
    · exact .say h _
    · rename_i hbalance
      obtain ⟨hp, ht⟩ := stakeCells_spec h.bets h.chip keys
      refine .stake h (Int.not_lt.mp hbalance) hp ?_
      rw [ht, hk]
      rfl

theorem quickUndo_exact (h : Funded g) (keys : List String) : Exact g (g.quickUndo keys) := by
  obtain ⟨hp, ht, hr⟩ := undoCells_spec h.bets h.chip keys
  rw [quickUndo]
  split
  · exact .refl h
  · dsimp only
    split
    · exact .refl h
    · exact .refund h hr hp ht

theorem handleRandomPick_exact (h : Funded g) (s : Section) (count : ℤ) (random : ℕ → Random) :
    Exact g (g.handleRandomPick s count random) := by
  rw [handleRandomPick]
  split
  · exact .refl h
  · dsimp only
    split
    · exact .say h _
    · rename_i hbalance
      have hn : (max 0 (min count 100)).toNat ≤ 100 := by omega
      obtain ⟨hnodup, hlength, hrange⟩ := pickedIndices_spec random hn
      obtain ⟨hp, ht⟩ := erased_spec h.bets
        (nodup_cells s.type (g.base s) (List.nodup_range (n := 100)))
      obtain ⟨hp', ht'⟩ := picked_spec hp h.chip (nodup_cells s.type (g.base s) hnodup) fun key hk => by
        obtain ⟨i, hi, rfl⟩ := List.mem_map.mp hk
        exact notMem_erased (List.mem_map.mpr ⟨i, List.mem_range.mpr (hrange i hi), rfl⟩)
      refine .stake h (Int.not_lt.mp hbalance) hp' (ht'.trans ?_)
      change tallied (List.foldl _ _ (g.sectionCells s)) = tallied g.bets - g.refundedStake s at ht
      rw [List.length_map, hlength]
      simp only [sectionCells] at ht ⊢
      rw [ht]
      omega

theorem handleDouble_acted (h : Funded g) : Acted g g.handleDouble ∧
    (g.handleDouble.gap = g.gap ∨ g.handleDouble.gap = g.gap * 2) := by
  rw [handleDouble]
  split
  · exact ⟨.refl h, .inl rfl⟩
  · dsimp only
    split
    · exact ⟨.say h _, .inl rfl⟩
    · rename_i hbalance
      have hgap := h.gap
      have hdouble : tallied (scale 2 g.bets) = tallied g.bets * 2 := tallied_scale 2
      refine ⟨⟨⟨h.chip, h.chips, h.bets.scale (by decide), h.previousBets, ?_, ?_⟩, ?_, rfl, rfl, rfl,
        rfl⟩, .inr ?_⟩ <;> simp only [gap, hdouble] at hgap ⊢ <;> omega

def repeats (g : GameState) : Prop :=
  g.isLocked = false ∧ g.hasPreviousBets = true ∧ tallied g.previousBets ≤ g.pointsBalance

theorem handleRepeat_acted (h : Funded g) : Acted g g.handleRepeat ∧
    (repeats g → g.handleRepeat.gap = g.gap + overlap g.previousBets g.bets) ∧
    (¬ repeats g → g.handleRepeat.gap = g.gap) := by
  have hunion := tallied_union_add (s := g.previousBets) (t := g.bets)
  have hover := overlap_nonneg (s := g.previousBets) h.bets
  rw [handleRepeat]
  split
  · rename_i hno
    refine ⟨.refl h, fun hr => ?_, fun _ => rfl⟩
    rcases hno with hlocked | hnone
    · exact absurd (hr.1.symm.trans hlocked) Bool.false_ne_true
    · rw [hr.2.1] at hnone
      cases hnone
  · rename_i hmay
    dsimp only
    split
    · rename_i hpoor
      exact ⟨.say h _, fun hr => absurd hr.2.2 (Int.not_le.mpr hpoor), fun _ => rfl⟩
    · rename_i hrich
      refine ⟨.stake h (Int.not_lt.mp hrich) (h.previousBets.union h.bets) (by omega), fun _ => ?_,
        fun hr => absurd ?_ hr⟩
      · simp only [gap, GameState.stake]
        omega
      · simp only [not_or, Bool.not_eq_true, Bool.not_eq_eq_eq_not, Bool.not_true,
          Bool.not_eq_false] at hmay
        exact ⟨hmay.1, hmay.2, Int.not_lt.mp hrich⟩

theorem handleClear_acted (h : Funded g) : Acted g g.handleClear ∧
    (g.handleClear.gap = g.gap ∨ g.handleClear.gap = 0) := by
  rw [handleClear]
  split
  · exact ⟨.refl h, .inl rfl⟩
  · have hgap := h.gap
    have hbalance := h.balance
    have hnonneg := h.bets.tallied_nonneg
    refine ⟨⟨⟨h.chip, h.chips, positive_empty, h.previousBets, le_refl _, ?_⟩, ?_, rfl, rfl, rfl, rfl⟩,
      .inr rfl⟩
    · simp only [gap] at hgap ⊢
      omega
    · simp

theorem act_exact (h : Funded g) (ha : g.act a = some g') (hd : a ≠ .double)
    (hr : a ≠ .repeatLast) (hc : a ≠ .clear) : Exact g g' := by
  cases a with
  | place type value => cases ha; exact handlePlaceBet_exact h type value
  | remove type value => cases ha; exact handleRemoveBet_exact h type value
  | quickRow s row => cases ha; exact quick_exact h (by simp [rowCells])
  | quickCol s col => cases ha; exact quick_exact h (by simp [colCells])
  | quickRowUndo s row => cases ha; exact quickUndo_exact h _
  | quickColUndo s col => cases ha; exact quickUndo_exact h _
  | randomPick s count random => cases ha; exact handleRandomPick_exact h s count random
  | double => exact absurd rfl hd
  | repeatLast => exact absurd rfl hr
  | clear => exact absurd rfl hc
  | selectChip val =>
    simp only [act, Option.ite_none_right_eq_some, Option.some.injEq] at ha
    obtain ⟨hval, rfl⟩ := ha
    have hpos := h.chips val (List.mem_of_mem_filter hval)
    exact ⟨⟨⟨hpos, h.chips, h.bets, h.previousBets, h.gap, h.balance⟩, rfl, rfl, rfl, rfl, rfl⟩, rfl⟩
  | selectTab t =>
    simp only [act, Option.ite_none_right_eq_some, Option.some.injEq] at ha
    obtain ⟨-, rfl⟩ := ha
    exact ⟨⟨⟨h.chip, h.chips, h.bets, h.previousBets, h.gap, h.balance⟩, rfl, rfl, rfl, rfl, rfl⟩, rfl⟩

theorem act_acted (h : Funded g) (ha : g.act a = some g') : Acted g g' := by
  by_cases hd : a = .double
  · subst hd
    cases ha
    exact (handleDouble_acted h).1
  by_cases hr : a = .repeatLast
  · subst hr
    cases ha
    exact (handleRepeat_acted h).1
  by_cases hc : a = .clear
  · subst hc
    cases ha
    exact (handleClear_acted h).1
  exact (act_exact h ha hd hr hc).toActed

theorem cellWin_nonneg (result : DrawResult) (key : String) {stake : ℤ} (h : 0 ≤ stake) :
    0 ≤ cellWin result key stake := by
  rw [cellWin]
  split
  · rename_i type value _
    split
    · exact Int.mul_nonneg h (by cases type <;> decide)
    · exact le_refl _
  · exact le_refl _

theorem settleBets_eq_sum (bets : Bets) (result : DrawResult) :
    settleBets bets result = (bets.entries.map fun e => cellWin result e.1 e.2).sum := by
  rw [settleBets, List.sum_eq_foldl, List.foldl_map]

theorem settleBets_nonneg {bets : Bets} (h : Positive bets) (result : DrawResult) :
    0 ≤ settleBets bets result := by
  rw [settleBets_eq_sum]
  apply List.sum_nonneg
  intro x hx
  obtain ⟨e, he, rfl⟩ := List.mem_map.mp hx
  exact cellWin_nonneg result e.1 (amount_of_mem he ▸ h.nonneg e.1)

theorem Funded.of_same (h : Funded g) (hchip : g'.selectedChip = g.selectedChip)
    (hchips : g'.availableChips = g.availableChips) (hbets : g'.bets = g.bets)
    (hprevious : g'.previousBets = g.previousBets) (hstake : g'.playStake = g.playStake)
    (hbalance : g.pointsBalance ≤ g'.pointsBalance) : Funded g' := by
  refine ⟨hchip ▸ h.chip, hchips ▸ h.chips, hbets ▸ h.bets, hprevious ▸ h.previousBets, ?_,
    h.balance.trans hbalance⟩
  rw [GameState.gap, hstake, hbets]
  exact h.gap

theorem Funded.countdown (h : Funded g) : Funded g.countdown := by
  rw [GameState.countdown]
  split <;> exact h.of_same rfl rfl rfl rfl rfl (le_refl _)

theorem Funded.settle (h : Funded g) (result : DrawResult) (drawTime : String) :
    Funded (g.settle result drawTime) := by
  rw [GameState.settle]
  split
  · exact h
  · have hwin := settleBets_nonneg h.bets result
    refine h.of_same rfl rfl rfl rfl rfl ?_
    change g.pointsBalance ≤ g.pointsBalance + settleBets g.bets result
    omega

theorem Funded.reopen (h : Funded g) : Funded g.reopen := by
  rw [GameState.reopen]
  split
  · exact h
  · exact ⟨h.chip, h.chips, positive_empty, h.bets, le_refl _, h.balance⟩

theorem gap_reopen (h : g.phase = .result) : g.reopen.gap = 0 := by
  simp [reopen, h, gap]

end GameState

end JitoGame.Web
