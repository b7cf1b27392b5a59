import JitoGame.Json.Numbers
import JitoGame.Numbers

namespace JitoGame

open Decimals

theorem head_toDigits_pos {n : ℕ} (hn : 0 < n) : (Nat.toDigits 10 n).head? ≠ some '0' := by
  by_cases hlength : 1 < (Nat.toDigits 10 n).length
  · exact head_toDigits hlength
  · intro hhead
    obtain ⟨rest, hrest⟩ := List.head?_eq_some_iff.mp hhead
    have hnil : rest = [] := by
      rw [hrest, List.length_cons] at hlength
      exact List.length_eq_zero_iff.mp (by omega)
    have hvalue := value_toDigits n
    rw [hrest, hnil] at hvalue
    exact absurd hvalue (by rw [show value ['0'] = 0 from rfl]; omega)

theorem numeral_zero : Numeral ['0'] := by
  refine ⟨List.cons_ne_nil _ _, fun c hc => ?_⟩
  rw [List.mem_singleton.mp hc]
  rfl

namespace Centipoints.Finite

open Json

structure Spells (x : Finite) (i f y : List Char) (e : ℤ) : Prop where
  text : x.text = spelled i f y
  whole : Numeral i
  lead : i = ['0'] ∨ i.head? ≠ some '0'
  fraction : ∀ c ∈ f, c.isDigit = true
  exponent : Exponent y e
  value : (Decimals.value (i ++ f) : ℚ) * 10 ^ (e - f.length) = x.shortestDecimal

variable (x : Finite)

theorem shortestDecimal_eq {l : List Char} {z : ℕ} {e : ℤ} (hvalue : Decimals.value l = 10 ^ z * x.s)
    (he : z + e = x.n - digitCount x.s) : (Decimals.value l : ℚ) * 10 ^ e = x.shortestDecimal := by
  rw [shortestDecimal, decimal, ← he, zpow_add₀ (by norm_num), zpow_natCast, hvalue]
  push_cast
  ring

theorem spells_zero (hm : x.m = 0) : Spells x ['0'] [] [] 0 where
  text := by
    unfold Finite.text
    rw [if_pos hm]
    rfl
  whole := numeral_zero
  lead := .inl rfl
  fraction _ hc := absurd hc List.not_mem_nil
  exponent := .none
  value := by
    rw [shortestDecimal, decimal, x.zero hm, show Decimals.value (['0'] ++ []) = 0 from rfl]
    norm_num

theorem spells_whole (hm : x.m ≠ 0) (hn : x.n ≤ 21) (hk : digitCount x.s ≤ x.n) :
    Spells x (Nat.toDigits 10 x.s ++ List.replicate (x.n - digitCount x.s).toNat '0') [] [] 0 where
  text := by
    have hpos := digitCount_pos x.s
    have hk' : ((Nat.toDigits 10 x.s).length : ℤ) ≤ x.n := hk
    unfold Finite.text
    simp only [hm, ↓reduceIte, if_pos (show -5 ≤ x.n ∧ x.n ≤ 21 by omega), if_pos hk']
    rw [spelled, List.isEmpty_nil, if_pos rfl, List.append_nil]
    rfl
  whole := by
    have hdigits := numeral_toDigits x.s
    refine ⟨fun hnil => hdigits.ne_nil (List.append_eq_nil_iff.mp hnil).1, fun c hc => ?_⟩
    rcases List.mem_append.mp hc with hc | hc
    · exact hdigits.digits c hc
    · rw [List.eq_of_mem_replicate hc]
      decide
  lead := by
    refine .inr ?_
    rw [List.head?_append_of_ne_nil _ (numeral_toDigits x.s).ne_nil]
    exact head_toDigits_pos (x.shortest hm).pos
  fraction _ hc := absurd hc List.not_mem_nil
  exponent := .none
  value := by
    refine x.shortestDecimal_eq (z := (x.n - digitCount x.s).toNat) ?_ (by simp; omega)
    rw [List.append_nil, value_append, value_toDigits, value_replicate_zero, List.length_replicate,
      Nat.add_zero]

theorem spells_split (hm : x.m ≠ 0) (hn : x.n ≤ 21) (hpos : 0 < x.n) (hk : x.n < digitCount x.s) :
    Spells x ((Nat.toDigits 10 x.s).take x.n.toNat) ((Nat.toDigits 10 x.s).drop x.n.toNat) [] 0 where
  text := by
    have hk' : x.n < ((Nat.toDigits 10 x.s).length : ℤ) := hk
    have hne : ((Nat.toDigits 10 x.s).drop x.n.toNat).isEmpty = false := by
      simp
      omega
    unfold Finite.text
    simp only [hm, ↓reduceIte, if_pos (show -5 ≤ x.n ∧ x.n ≤ 21 by omega), if_neg (not_le.mpr hk'),
      if_pos hpos, spelled, hne, List.append_nil, Bool.false_eq_true]
  whole := by
    have hdigits := numeral_toDigits x.s
    refine ⟨fun hnil => ?_, fun c hc => hdigits.digits c (List.mem_of_mem_take hc)⟩
    rcases List.take_eq_nil_iff.mp hnil with hzero | hnil
    · omega
    · exact hdigits.ne_nil hnil
  lead := by
    refine .inr ?_
    rw [List.head?_take, if_neg (by omega)]
    exact head_toDigits_pos (x.shortest hm).pos
  fraction c hc := (numeral_toDigits x.s).digits c (List.mem_of_mem_drop hc)
  exponent := .none
  value := by
    have hk' : x.n < ((Nat.toDigits 10 x.s).length : ℤ) := hk
    refine x.shortestDecimal_eq (z := 0) ?_ ?_
    · rw [List.take_append_drop, value_toDigits, pow_zero, one_mul]
    · rw [List.length_drop, digitCount]
      omega

theorem spells_small (hm : x.m ≠ 0) (hn : -5 ≤ x.n) (hneg : x.n ≤ 0) :
    Spells x ['0'] (List.replicate (-x.n).toNat '0' ++ Nat.toDigits 10 x.s) [] 0 where
  text := by
    have hpos : 0 < ((Nat.toDigits 10 x.s).length : ℤ) := by exact_mod_cast digitCount_pos x.s
    have hne : (List.replicate (-x.n).toNat '0' ++ Nat.toDigits 10 x.s).isEmpty = false := by
      simp [(numeral_toDigits x.s).ne_nil]
    unfold Finite.text
    simp only [hm, ↓reduceIte, if_pos (show -5 ≤ x.n ∧ x.n ≤ 21 by omega),
      if_neg (show ¬ ((Nat.toDigits 10 x.s).length : ℤ) ≤ x.n by omega), if_neg (not_lt.mpr hneg), spelled,
      hne, List.append_nil, Bool.false_eq_true, List.cons_append, List.nil_append]
  whole := numeral_zero
  lead := .inl rfl
  fraction c hc := by
    rcases List.mem_append.mp hc with hc | hc
    · rw [List.eq_of_mem_replicate hc]
      decide
    · exact (numeral_toDigits x.s).digits c hc
  exponent := .none
  value := by
    refine x.shortestDecimal_eq (z := 0) ?_ ?_
    · rw [value_append, value_append, value_replicate_zero, value_toDigits,
        show Decimals.value ['0'] = 0 from rfl]
      omega
    · rw [List.length_append, List.length_replicate, digitCount]
      omega

theorem spells_exponent (hm : x.m ≠ 0) (hn : ¬(-5 ≤ x.n ∧ x.n ≤ 21)) :
    Spells x ((Nat.toDigits 10 x.s).take 1) ((Nat.toDigits 10 x.s).drop 1)
      ('e' :: (if x.n - 1 < 0 then '-' else '+') :: Nat.toDigits 10 (x.n - 1).natAbs) (x.n - 1) where
  text := by
    unfold Finite.text
    simp only [hm, ↓reduceIte, if_neg hn, spelled]
    rcases hdigits : Nat.toDigits 10 x.s with _ | ⟨a, _ | ⟨b, more⟩⟩
    · exact absurd hdigits (numeral_toDigits x.s).ne_nil
    · rfl
    · simp
  whole := by
    have hdigits := numeral_toDigits x.s
    refine ⟨fun hnil => ?_, fun c hc => hdigits.digits c (List.mem_of_mem_take hc)⟩
    rcases List.take_eq_nil_iff.mp hnil with hzero | hnil
    · cases hzero
    · exact hdigits.ne_nil hnil
  lead := by
    refine .inr ?_
    rw [List.head?_take, if_neg (by decide)]
    exact head_toDigits_pos (x.shortest hm).pos
  fraction c hc := (numeral_toDigits x.s).digits c (List.mem_of_mem_drop hc)
  exponent := by
    have hvalue := value_toDigits (x.n - 1).natAbs
    split
    · have hexp := Exponent.minus (numeral_toDigits (x.n - 1).natAbs)
      rwa [hvalue, show -((x.n - 1).natAbs : ℤ) = x.n - 1 by omega] at hexp
    · have hexp := Exponent.plus (numeral_toDigits (x.n - 1).natAbs)
      rwa [hvalue, show ((x.n - 1).natAbs : ℤ) = x.n - 1 by omega] at hexp
  value := by
    have hpos := digitCount_pos x.s
    refine x.shortestDecimal_eq (z := 0) ?_ ?_
    · rw [List.take_append_drop, value_toDigits, pow_zero, one_mul]
    · rw [List.length_drop]
      change _ = x.n - ((Nat.toDigits 10 x.s).length : ℤ)
      change 0 < (Nat.toDigits 10 x.s).length at hpos
      omega

theorem spells : ∃ i f y e, Spells x i f y e := by
  by_cases hm : x.m = 0
  · exact ⟨_, _, _, _, x.spells_zero hm⟩
  · by_cases hrange : -5 ≤ x.n ∧ x.n ≤ 21
    · by_cases hk : digitCount x.s ≤ x.n
      · exact ⟨_, _, _, _, x.spells_whole hm hrange.2 hk⟩
      · by_cases hpos : 0 < x.n
        · exact ⟨_, _, _, _, x.spells_split hm hrange.2 hpos (by omega)⟩
        · exact ⟨_, _, _, _, x.spells_small hm hrange.1 (by omega)⟩
    · exact ⟨_, _, _, _, x.spells_exponent hm hrange⟩

theorem isWhole_text : isWhole x.text = true := by
  obtain ⟨i, f, y, e, h⟩ := x.spells
  rw [h.text]
  exact isWhole_spelled h.whole h.lead h.fraction h.exponent

theorem magnitude_text : magnitude x.text = x.shortestDecimal := by
  obtain ⟨i, f, y, e, h⟩ := x.spells
  rw [h.text, magnitude_spelled h.whole.digits h.fraction h.exponent, h.value]

theorem rounds_text : RoundsTo x.shortestDecimal x.toDouble := by
  by_cases hm : x.m = 0
  · have hzero : x.shortestDecimal = 0 := by
      rw [shortestDecimal, decimal, x.zero hm]
      norm_num
    rw [hzero]
    refine .exact ?_ (pow_pos two_pos 1024).ne
    rw [Double.value, hm]
    norm_num
  · exact (x.shortest hm).rounds

end Centipoints.Finite

namespace Json

open Centipoints

def Number.ofFinite (negative : Bool) (x : Finite) : Number where
  text := (Centipoints.Number.finite negative x).text.toList
  valid := by
    rw [Centipoints.Number.text, String.toList_append, String.toList_ofList]
    split
    · exact x.isWhole_text
    · exact isNumber_of_isWhole x.isWhole_text

theorem Number.value_ofFinite (negative : Bool) (x : Finite) : (Number.ofFinite negative x).value =
    if negative = true ∧ x.m ≠ 0 then -x.shortestDecimal else x.shortestDecimal := by
  have htext : (Number.ofFinite negative x).text =
      if negative = true ∧ x.m ≠ 0 then '-' :: x.text else x.text := by
    change (Centipoints.Number.finite negative x).text.toList = _
    rw [Centipoints.Number.text, String.toList_append, String.toList_ofList]
    split <;> rfl
  split
  · rename_i hneg
    rw [if_pos hneg] at htext
    rw [Number.value, htext]
    exact congrArg Neg.neg x.magnitude_text
  · rename_i hneg
    rw [if_neg hneg] at htext
    rw [Number.value_of_isWhole (htext ▸ x.isWhole_text), htext, x.magnitude_text]

end Json

end JitoGame
