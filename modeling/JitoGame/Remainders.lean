import Mathlib.Algebra.Order.Floor.Ring
import Mathlib.Algebra.Order.ToIntervalMod
import Mathlib.Tactic.FieldSimp
import Mathlib.Tactic.Linarith
import Mathlib.Tactic.Ring

namespace JitoGame.Remainders

open AddCommGroup

variable {α : Type*} [Field α] [LinearOrder α] [FloorRing α] {a b m : α}

def truncated (a : α) : ℤ := if 0 ≤ a then ⌊a⌋ else ⌈a⌉

/-- The remainder of a division rounded towards zero: it has the sign of `a`. -/
def remainder (a m : α) : α := a - truncated (a / m) * m

def residue (a m : α) : α := remainder (remainder a m + m) m

theorem remainder_modEq : remainder a m ≡ a [PMOD m] := by
  rw [modEq_iff_eq_add_zsmul]
  refine ⟨truncated (a / m), ?_⟩
  rw [remainder, zsmul_eq_mul, sub_add_cancel]

theorem residue_modEq : residue a m ≡ a [PMOD m] := by
  have hadd : remainder a m + m ≡ remainder a m [PMOD m] := add_modEq_left.mpr self_modEq_zero
  exact (remainder_modEq.trans hadd).trans remainder_modEq

variable [IsStrictOrderedRing α]

theorem remainder_of_nonneg (hm : 0 < m) (ha : 0 ≤ a) : 0 ≤ remainder a m ∧ remainder a m < m := by
  have hdiv : 0 ≤ a / m := div_nonneg ha (le_of_lt hm)
  have hle : ⌊a / m⌋ * m ≤ a := (le_div_iff₀ hm).mp (Int.floor_le _)
  have hlt : a < (⌊a / m⌋ + 1) * m := (div_lt_iff₀ hm).mp (Int.lt_floor_add_one _)
  rw [remainder, truncated, if_pos hdiv]
  constructor <;> linarith

theorem remainder_of_neg (hm : 0 < m) (ha : a < 0) : -m < remainder a m ∧ remainder a m ≤ 0 := by
  have hdiv : ¬ 0 ≤ a / m := not_le.mpr (div_neg_of_neg_of_pos ha hm)
  have hle : a ≤ ⌈a / m⌉ * m := (div_le_iff₀ hm).mp (Int.le_ceil _)
  have hlt : (⌈a / m⌉ - 1) * m < a := (lt_div_iff₀ hm).mp (by linarith [Int.ceil_lt_add_one (a / m)])
  rw [remainder, truncated, if_neg hdiv]
  constructor <;> linarith

theorem residue_mem (hm : 0 < m) : 0 ≤ residue a m ∧ residue a m < m := by
  apply remainder_of_nonneg hm
  by_cases ha : 0 ≤ a
  · have hrem := (remainder_of_nonneg hm ha).1
    linarith
  · have hrem := (remainder_of_neg hm (not_le.mp ha)).1
    linarith

theorem residue_eq_toIcoMod (hm : 0 < m) : residue a m = toIcoMod hm 0 a := by
  symm
  rw [toIcoMod_eq_iff, zero_add]
  exact ⟨residue_mem hm, modEq_iff_eq_add_zsmul.mp residue_modEq⟩

theorem residue_inj (hm : 0 < m) : residue a m = residue b m ↔ a ≡ b [PMOD m] := by
  rw [residue_eq_toIcoMod hm, residue_eq_toIcoMod hm, toIcoMod_inj hm]

theorem residue_of_mem (hm : 0 < m) (ha : 0 ≤ a) (h : a < m) : residue a m = a := by
  rw [residue_eq_toIcoMod hm, toIcoMod_eq_self, zero_add]
  exact ⟨ha, h⟩

section Near

variable {β : Type*} [Field β] [LinearOrder β] {a b c m d d' : β}

def Near (m d a b : β) : Prop := ∃ c, c ≡ b [PMOD m] ∧ |c - a| ≤ d

namespace Near

variable [IsStrictOrderedRing β]

theorem trans (h : Near m d a b) (h' : Near m d' b c) : Near m (d + d') a c := by
  obtain ⟨x, hx, hxa⟩ := h
  obtain ⟨y, hy, hyb⟩ := h'
  refine ⟨y + (x - b), ?_, ?_⟩
  · have hsum : y + (x - b) ≡ c + (b - b) [PMOD m] := hy.add (hx.sub modEq_rfl)
    rwa [sub_self, add_zero] at hsum
  · calc |y + (x - b) - a| = |(x - a) + (y - b)| := by ring_nf
      _ ≤ |x - a| + |y - b| := abs_add_le _ _
      _ ≤ d + d' := add_le_add hxa hyb

end Near

end Near

end JitoGame.Remainders
