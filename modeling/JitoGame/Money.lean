import JitoGame.Centipoints
import Mathlib.Data.List.TakeWhile

namespace JitoGame.Centipoints

open Auth (trim)
open Decimals

variable {str i f : List Char} {v : ℚ}

theorem parts_whole (hi : Numeral i) : parts i = (i, ['0', '0']) := by
  rw [parts, List.idxOf?_eq_none_iff.mpr (dot_notMem hi.digits)]

theorem parts_fraction (hi : Numeral i) :
    parts (i ++ '.' :: f) = (i, (f.take 2).rightpad 2 '0') := by
  have hdot : (i ++ '.' :: f).idxOf? '.' = some i.length := by
    rw [List.idxOf?_eq_some_iff]
    refine ⟨by simp, by simp, fun j hj => ?_⟩
    rw [List.getElem_append_left hj]
    exact fun heq => dot_notMem hi.digits (heq ▸ List.getElem_mem hj)
  rw [parts, hdot]
  simp

theorem bigInt_digits (h : ∀ c ∈ i, c.isDigit = true) : bigInt i = .ok (value i : ℤ) :=
  if_pos (List.all_eq_true.mpr h)

theorem bigInt_stripZeros (hi : ∀ c ∈ i, c.isDigit = true) :
    bigInt (stripZeros i) = .ok (value i : ℤ) := by
  have hvalue := value_dropZeros i
  rw [stripZeros]
  by_cases hz : i.dropWhile (· = '0') = []
  · rw [hz] at hvalue
    simp only [hz, ↓reduceIte]
    rw [← hvalue]
    rfl
  · simp only [hz, ↓reduceIte]
    rw [bigInt_digits fun c hc => hi c (List.dropWhile_subset _ hc), hvalue]

theorem digits_rightpad (hf : Numeral f) : ∀ c ∈ (f.take 2).rightpad 2 '0', c.isDigit = true := by
  intro c hc
  rcases List.mem_append.mp hc with hc | hc
  · exact hf.digits c (List.mem_of_mem_take hc)
  · rw [List.eq_of_mem_replicate hc]
    decide

theorem parseDecimalString_spec (h : Denotes str v) : parseDecimalString str = .ok ⌊100 * v⌋ := by
  cases h with
  | whole hi =>
    rw [parseDecimalString, parts_whole hi]
    simp only [hi.ne_nil, ↓reduceIte]
    have hzeros : ∀ c ∈ ['0', '0'], c.isDigit = true := by simp
    rw [bigInt_stripZeros hi.digits, bigInt_digits hzeros]
    refine congrArg Except.ok (Int.floor_eq_iff.mpr ?_).symm
    rw [show value ['0', '0'] = 0 from rfl]
    push_cast
    constructor <;> linarith
  | fraction hi hf =>
    rw [parseDecimalString, parts_fraction hi]
    simp only [hi.ne_nil, ↓reduceIte]
    rw [bigInt_stripZeros hi.digits, bigInt_digits (digits_rightpad hf), ← floor_fraction hf]
    apply congrArg Except.ok
    rw [mul_add, ← Int.floor_intCast_add]
    congr 1
    push_cast
    ring

theorem decimalPattern_iff : decimalPattern str = true ↔ ∃ v, Denotes str v := by
  simp only [decimalPattern, decide_eq_true_eq]
  constructor
  · rintro ⟨hne, hrest⟩
    have hsplit := List.takeWhile_append_dropWhile (p := Char.isDigit) (l := str)
    have hi : Numeral (str.takeWhile Char.isDigit) := ⟨hne, fun c hc => List.mem_takeWhile_imp hc⟩
    cases hdrop : str.dropWhile Char.isDigit with
    | nil =>
      rw [hdrop, List.append_nil] at hsplit
      rw [← hsplit]
      exact ⟨_, .whole hi⟩
    | cons c f =>
      rw [hdrop] at hrest hsplit
      rcases hrest with hnil | ⟨hdot, hne, hall⟩
      · cases hnil
      · cases hdot
        rw [← hsplit]
        exact ⟨_, .fraction hi ⟨hne, List.all_eq_true.mp hall⟩⟩
  · rintro ⟨v, h⟩
    cases h with
    | whole hi =>
      rw [List.takeWhile_eq_self_iff.mpr hi.digits, List.dropWhile_eq_nil_iff.mpr hi.digits]
      exact ⟨hi.ne_nil, .inl rfl⟩
    | @fraction i f hi hf =>
      rw [List.takeWhile_append_of_pos hi.digits, List.dropWhile_append_of_pos hi.digits,
        List.takeWhile_cons_of_neg (by decide), List.dropWhile_cons_of_neg (by decide), List.append_nil]
      exact ⟨hi.ne_nil, .inr ⟨rfl, hf.ne_nil, List.all_eq_true.mpr hf.digits⟩⟩

/-- A string is read exactly when it is a decimal numeral, as its value in hundredths rounded down. -/
theorem toCentipoints_string (s : String) :
    ((∃ c, toCentipoints (.string s) = .ok c) ↔ ∃ v, Denotes (trim s).toList v) ∧
      (∀ v, Denotes (trim s).toList v → toCentipoints (.string s) = .ok ⌊100 * v⌋) ∧
      ((¬ ∃ v, Denotes (trim s).toList v) →
        ∃ message, toCentipoints (.string s) = .error ⟨.typeError, message⟩) := by
  have hreads (v : ℚ) (h : Denotes (trim s).toList v) :
      toCentipoints (.string s) = .ok ⌊100 * v⌋ := by
    simp only [toCentipoints, decimalPattern_iff.mpr ⟨v, h⟩, ↓reduceIte]
    exact parseDecimalString_spec h
  have hrefuses (h : ¬ ∃ v, Denotes (trim s).toList v) :
      ∃ message, toCentipoints (.string s) = .error ⟨.typeError, message⟩ := by
    have hpattern := mt decimalPattern_iff.mp h
    simp only [toCentipoints, hpattern, Bool.false_eq_true, ↓reduceIte]
    exact ⟨_, rfl⟩
  refine ⟨⟨fun ⟨c, hc⟩ => ?_, fun ⟨v, h⟩ => ⟨_, hreads v h⟩⟩, hreads, hrefuses⟩
  by_contra hno
  obtain ⟨message, herror⟩ := hrefuses hno
  rw [hc] at herror
  cases herror

/-! Printing, and reading back what is printed. -/

theorem dropWhile_isSpace (h : ∀ c ∈ str, Auth.isSpace c = false) : str.dropWhile Auth.isSpace = str := by
  cases str with
  | nil => rfl
  | cons c str => exact List.dropWhile_cons_of_neg (by simp [h c List.mem_cons_self])

theorem isSpace_digit {c : Char} (hc : c.isDigit = true) : Auth.isSpace c = false := by
  obtain ⟨hlow, hhigh⟩ := digit_bounds hc
  simp only [Char.reduceToNat] at hlow hhigh
  simp only [Auth.isSpace, decide_eq_false_iff_not]
  omega

theorem isSpace_denotes (h : Denotes str v) : ∀ c ∈ str, Auth.isSpace c = false := by
  intro c hc
  cases h with
  | whole hi => exact isSpace_digit (hi.digits c hc)
  | fraction hi hf =>
    rcases List.mem_append.mp hc with hc | hc
    · exact isSpace_digit (hi.digits c hc)
    · rcases List.mem_cons.mp hc with rfl | hc
      · decide
      · exact isSpace_digit (hf.digits c hc)

theorem trim_denotes {s : String} (h : Denotes s.toList v) : trim s = s := by
  have hspace := isSpace_denotes h
  rw [trim, dropWhile_isSpace hspace, dropWhile_isSpace fun c hc => hspace c (List.mem_reverse.mp hc),
    List.reverse_reverse, String.ofList_toList]

theorem numeral_leftpad {n : ℕ} (hn : n < 100) : Numeral ((Nat.toDigits 10 n).leftpad 2 '0') ∧
    ((Nat.toDigits 10 n).leftpad 2 '0').length = 2 ∧
    value ((Nat.toDigits 10 n).leftpad 2 '0') = n := by
  have hlength : (Nat.toDigits 10 n).length ≤ 2 := (Nat.length_toDigits_le_iff (by decide) (by decide)).mpr hn
  have hpad : ((Nat.toDigits 10 n).leftpad 2 '0').length = 2 := by
    rw [List.length_leftpad]
    omega
  refine ⟨⟨List.ne_nil_of_length_pos (by omega), fun c hc => ?_⟩, hpad, ?_⟩
  · rcases List.mem_append.mp hc with hc | hc
    · rw [List.eq_of_mem_replicate hc]
      decide
    · exact (numeral_toDigits n).digits c hc
  · rw [List.leftpad, value_append, value_replicate_zero, value_toDigits]
    omega

theorem fromCentipoints_spec (n : ℕ) :
    ∃ t, fromCentipoints n = .ok t ∧ Canonical t.toList ((n : ℤ) / 100 : ℚ) := by
  obtain ⟨hnumeral, hlength, hvalue⟩ := numeral_leftpad (Nat.mod_lt n (by decide : 0 < 100))
  rw [fromCentipoints, if_neg (by omega)]
  refine ⟨_, rfl, Nat.toDigits 10 (n / 100), (Nat.toDigits 10 (n % 100)).leftpad 2 '0', ?_,
    numeral_toDigits _, hnumeral, hlength, head_toDigits, ?_⟩
  · have hdiv : (n : ℤ).tdiv centipointsPerPoint = (n / 100 : ℕ) := rfl
    have hmod : (n : ℤ).tmod centipointsPerPoint = (n % 100 : ℕ) := rfl
    simp only [hdiv, hmod, String.toList_append, toList_toString, String.toList_ofList,
      List.append_assoc]
    rfl
  · have hsplit : (n : ℚ) = 100 * (n / 100 : ℕ) + (n % 100 : ℕ) := by
      exact_mod_cast (Nat.div_add_mod n 100).symm
    rw [value_toDigits, hvalue, Int.cast_natCast]
    linarith

theorem toCentipoints_canonical {t : String} {x : ℤ} (h : Canonical t.toList ((x : ℤ) / 100 : ℚ)) :
    toCentipoints (.string t) = .ok x := by
  have hdenotes := h.denotes
  rw [(toCentipoints_string t).2.1 _ (by rw [trim_denotes hdenotes]; exact hdenotes)]
  congr 1
  rw [mul_div_cancel₀ _ (by norm_num), Int.floor_intCast]

theorem fromCentipoints_toCentipoints {x : ℤ} (hx : 0 ≤ x) : ∃ t, fromCentipoints x = .ok t ∧
    Canonical t.toList (x / 100 : ℚ) ∧ toCentipoints (.string t) = .ok x := by
  obtain ⟨n, rfl⟩ := Int.eq_ofNat_of_zero_le hx
  obtain ⟨t, ht, hcanonical⟩ := fromCentipoints_spec n
  exact ⟨t, ht, hcanonical, toCentipoints_canonical hcanonical⟩

theorem nonneg_of_fromCentipoints {x : ℤ} {t : String} (h : fromCentipoints x = .ok t) : 0 ≤ x := by
  by_contra hx
  rw [fromCentipoints, if_pos (by omega)] at h
  cases h

/-- What is printed reads back as the amount, and printing what was read gives the canonical text of
the amount rounded down. -/
theorem money_round_trip :
    (∀ x : ℤ, 0 ≤ x → ∃ t, fromCentipoints x = .ok t ∧ Canonical t.toList (x / 100 : ℚ) ∧
      toCentipoints (.string t) = .ok x) ∧
    (∀ x y t, fromCentipoints x = .ok t → fromCentipoints y = .ok t → x = y) ∧
    ∀ s c, toCentipoints (.string s) = .ok c → ∃ v t, Denotes (trim s).toList v ∧
      fromCentipoints c = .ok t ∧ Canonical t.toList (⌊100 * v⌋ / 100 : ℚ) ∧
      toCentipoints (.string t) = .ok c := by
  refine ⟨fun x hx => fromCentipoints_toCentipoints hx, fun x y t hx hy => ?_, fun s c hc => ?_⟩
  · obtain ⟨tx, htx, -, hreadx⟩ := fromCentipoints_toCentipoints (nonneg_of_fromCentipoints hx)
    obtain ⟨ty, hty, -, hready⟩ := fromCentipoints_toCentipoints (nonneg_of_fromCentipoints hy)
    cases hx.symm.trans htx
    cases hy.symm.trans hty
    exact Except.ok.inj (hreadx.symm.trans hready)
  · obtain ⟨haccepts, hvalue, -⟩ := toCentipoints_string s
    obtain ⟨v, hv⟩ := haccepts.mp ⟨c, hc⟩
    cases hc.symm.trans (hvalue v hv)
    have hnonneg : 0 ≤ ⌊100 * v⌋ := Int.floor_nonneg.mpr (mul_nonneg (by norm_num) hv.nonneg)
    obtain ⟨t, ht, hcanonical, hread⟩ := fromCentipoints_toCentipoints hnonneg
    exact ⟨v, t, hv, ht, hcanonical, hread⟩

end JitoGame.Centipoints
