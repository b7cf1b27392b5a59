import JitoGame.Money
import Mathlib.Algebra.Order.Field.Power

namespace JitoGame.Centipoints

open Decimals

variable {x : Finite} {str : List Char} {s n f : ℕ}

theorem denotes_fixed (n : ℕ) (hf : 0 < f) :
    Denotes (((Nat.toDigits 10 n).leftpad (f + 1) '0').take
        (((Nat.toDigits 10 n).leftpad (f + 1) '0').length - f) ++ '.' ::
      ((Nat.toDigits 10 n).leftpad (f + 1) '0').drop
        (((Nat.toDigits 10 n).leftpad (f + 1) '0').length - f)) (n / 10 ^ f : ℚ) := by
  have hvalue : value ((Nat.toDigits 10 n).leftpad (f + 1) '0') = n := by
    rw [List.leftpad, value_append, value_replicate_zero, value_toDigits]
    omega
  have hdigits : ∀ c ∈ (Nat.toDigits 10 n).leftpad (f + 1) '0', c.isDigit = true := by
    intro c hc
    rcases List.mem_append.mp hc with hc | hc
    · rw [List.eq_of_mem_replicate hc]
      decide
    · exact (numeral_toDigits n).digits c hc
  have hlength : f + 1 ≤ ((Nat.toDigits 10 n).leftpad (f + 1) '0').length := by
    rw [List.length_leftpad]
    omega
  generalize (Nat.toDigits 10 n).leftpad (f + 1) '0' = m at hvalue hdigits hlength ⊢
  have hdrop : (m.drop (m.length - f)).length = f := by
    rw [List.length_drop]
    omega
  have hi : Numeral (m.take (m.length - f)) := by
    refine ⟨List.ne_nil_of_length_pos ?_, fun c hc => hdigits c (List.mem_of_mem_take hc)⟩
    rw [List.length_take]
    omega
  have hfrac : Numeral (m.drop (m.length - f)) :=
    ⟨List.ne_nil_of_length_pos (by omega), fun c hc => hdigits c (List.mem_of_mem_drop hc)⟩
  have hsplit : n = 10 ^ f * value (m.take (m.length - f)) + value (m.drop (m.length - f)) := by
    have hjoin := value_append (m.take (m.length - f)) (m.drop (m.length - f))
    rw [List.take_append_drop, hdrop, hvalue] at hjoin
    exact hjoin
  have hdenotes := Denotes.fraction hi hfrac
  rw [hdrop] at hdenotes
  convert hdenotes using 1
  rw [hsplit]
  push_cast
  field_simp

theorem Double.value_nonneg (x : Double) : 0 ≤ x.value := by
  exact mul_nonneg (Nat.cast_nonneg _) (zpow_nonneg (by norm_num) _)

theorem toFixed_denotes (h : x.value < 10 ^ 21) (hf : 0 < f) :
    Denotes (x.toFixed f) (⌊x.value * 10 ^ f + 1 / 2⌋ / 10 ^ f : ℚ) := by
  rw [Finite.toFixed, if_neg (not_le.mpr h)]
  have hnonneg : 0 ≤ ⌊x.value * 10 ^ f + 1 / 2⌋ := by
    have hvalue := x.value_nonneg
    positivity
  have hcast : ((⌊x.value * 10 ^ f + 1 / 2⌋.toNat : ℕ) : ℚ) = ⌊x.value * 10 ^ f + 1 / 2⌋ := by
    exact_mod_cast Int.toNat_of_nonneg hnonneg
  rw [← hcast]
  exact denotes_fixed _ hf

/-- Below the exponent form the amount is that of the number moved up by half a unit of the tenth
digit. -/
theorem toFixed_floor (h : x.value < 10 ^ 21) : ∃ c, parseDecimalString (x.toFixed 10) = .ok c ∧
    ∀ j : ℤ, j ≤ c ↔ (j / 100 : ℚ) ≤ x.value + 1 / (2 * 10 ^ 10) := by
  refine ⟨_, parseDecimalString_spec (toFixed_denotes h (by decide)), fun j => ?_⟩
  rw [Int.le_floor]
  constructor
  · intro hj
    have hscaled : (j * 10 ^ 8 : ℤ) ≤ ⌊x.value * 10 ^ 10 + 1 / 2⌋ := by
      have hcents : (j * 10 ^ 8 : ℚ) ≤ ⌊x.value * 10 ^ 10 + 1 / 2⌋ := by linarith
      exact_mod_cast hcents
    have hreal := Int.le_floor.mp hscaled
    push_cast at hreal
    linarith
  · intro hj
    have hscaled : (j * 10 ^ 8 : ℤ) ≤ ⌊x.value * 10 ^ 10 + 1 / 2⌋ := by
      rw [Int.le_floor]
      push_cast
      linarith
    have hcents : (j * 10 ^ 8 : ℚ) ≤ ⌊x.value * 10 ^ 10 + 1 / 2⌋ := by exact_mod_cast hscaled
    linarith

theorem lt_pow_digitCount (s : ℕ) : s < 10 ^ digitCount s :=
  (Nat.length_toDigits_le_iff (by decide) Nat.length_toDigits_pos).mp (le_refl _)

theorem digitCount_pos (s : ℕ) : 0 < digitCount s := Nat.length_toDigits_pos

theorem pow_digitCount_le (hs : 0 < s) : 10 ^ (digitCount s - 1) ≤ s := by
  by_cases hone : digitCount s = 1
  · rw [hone]
    exact hs
  · have hpos := digitCount_pos s
    by_contra hlt
    have hle := (Nat.length_toDigits_le_iff (b := 10) (n := s) (k := digitCount s - 1) (by decide)
      (by omega)).mpr (by omega)
    change digitCount s ≤ digitCount s - 1 at hle
    omega

theorem decimal_lt (s : ℕ) (n : ℤ) : decimal s n < 10 ^ n := by
  have hlt : (s : ℚ) < 10 ^ (digitCount s : ℤ) := by exact_mod_cast lt_pow_digitCount s
  have hpow : (10 : ℚ) ^ n = 10 ^ (digitCount s : ℤ) * 10 ^ (n - digitCount s) := by
    rw [← zpow_add₀ (by norm_num)]
    congr 1
    omega
  rw [decimal, hpow]
  exact mul_lt_mul_of_pos_right hlt (zpow_pos (by norm_num) _)

theorem le_decimal (hs : 0 < s) (n : ℤ) : 10 ^ (n - 1) ≤ decimal s n := by
  have hle : (10 : ℚ) ^ ((digitCount s : ℤ) - 1) ≤ s := by
    have hpos := digitCount_pos s
    have hcast : (digitCount s : ℤ) - 1 = (digitCount s - 1 : ℕ) := by omega
    rw [hcast, zpow_natCast]
    exact_mod_cast pow_digitCount_le hs
  have hpow : (10 : ℚ) ^ (n - 1) = 10 ^ ((digitCount s : ℤ) - 1) * 10 ^ (n - digitCount s) := by
    rw [← zpow_add₀ (by norm_num)]
    congr 1
    omega
  rw [decimal, hpow]
  exact mul_le_mul_of_nonneg_right hle (zpow_nonneg (by norm_num) _)

theorem RoundsTo.exact {d : ℚ} {x : Double} (h : x.value = d) (hd : d ≠ 2 ^ 1024) : RoundsTo d x := by
  have hzero : |d - x.value| = 0 := by rw [h, sub_self, abs_zero]
  refine ⟨fun y => ⟨hzero ▸ abs_nonneg _, fun hy => .inl ?_⟩, hzero ▸ abs_pos.mpr (sub_ne_zero.mpr hd)⟩
  rw [hzero] at hy
  rw [h]
  exact (sub_eq_zero.mp (abs_eq_zero.mp hy.symm)).symm

theorem Shortest.exact {x : Double} {n : ℤ} (hs : 0 < s) (hone : digitCount s = 1)
    (h : x.value = decimal s n) (hd : decimal s n ≠ 2 ^ 1024) : Shortest x s n :=
  ⟨hs, .exact h hd, fun s' _ _ _ => hone ▸ digitCount_pos s'⟩

def ten21 : Double where
  m := 5 ^ 21 * 2 ^ 4
  e := 17
  fits := by norm_num
  range := by norm_num
  normal := by norm_num

def nineTen20 : Double where
  m := 9 * 5 ^ 20 * 2 ^ 3
  e := 17
  fits := by norm_num
  range := by norm_num
  normal := by norm_num

theorem ten21_value : ten21.value = 10 ^ 21 := by norm_num [Double.value, ten21]

theorem nineTen20_value : nineTen20.value = 9 * 10 ^ 20 := by norm_num [Double.value, nineTen20]

theorem decimal_one : decimal 1 22 = 10 ^ 21 := by
  rw [decimal, show digitCount 1 = 1 from rfl]
  norm_num

theorem ten21_lt : (10 : ℚ) ^ 21 < 2 ^ 1024 :=
  calc (10 : ℚ) ^ 21 < 2 ^ 70 := by norm_num
    _ ≤ 2 ^ 1024 := pow_le_pow_right₀ (by norm_num) (by norm_num)

theorem exponent_of_le (h : 10 ^ 21 ≤ x.value) : 21 < x.n := by
  have hm : x.m ≠ 0 := by
    intro hzero
    rw [Double.value, hzero] at h
    norm_num at h
  have hshort := x.shortest hm
  by_contra hn
  have hlt : decimal x.s x.n < 10 ^ 21 :=
    (decimal_lt x.s x.n).trans_le (by
      rw [← zpow_natCast]
      exact zpow_le_zpow_right₀ (by norm_num) (by push_cast; omega))
  -- a decimal below `10 ^ 21` can round to `10 ^ 21` at most, and there one digit is enough
  have hten := (hshort.rounds.1 ten21).1
  rw [ten21_value, abs_of_neg (by linarith), abs_of_neg (by linarith)] at hten
  have hvalue : x.value = 10 ^ 21 := by linarith
  have hone := hshort.least 1 22 (by decide) (by
    rw [decimal_one]
    exact .exact hvalue (ne_of_lt ten21_lt))
  have hcount : digitCount x.s = 1 := Nat.le_antisymm hone (digitCount_pos _)
  have hdigit : (x.s : ℚ) ≤ 9 := by
    have hlt := lt_pow_digitCount x.s
    rw [hcount] at hlt
    exact_mod_cast (by omega : x.s ≤ 9)
  have hpow : (10 : ℚ) ^ (x.n - 1) ≤ 10 ^ 20 := by
    rw [← zpow_natCast]
    exact zpow_le_zpow_right₀ (by norm_num) (by push_cast; omega)
  have hsmall : decimal x.s x.n ≤ 9 * 10 ^ 20 := by
    rw [decimal, hcount]
    exact mul_le_mul hdigit hpow (zpow_nonneg (by norm_num) _) (by norm_num)
  have hnine := (hshort.rounds.1 nineTen20).1
  rw [nineTen20_value, abs_of_neg (by linarith), abs_of_nonpos (by linarith), hvalue] at hnine
  linarith

theorem bigInt_exponent (h : 'e' ∈ str) : ∃ message, bigInt str = .error ⟨.syntaxError, message⟩ := by
  refine ⟨_, if_neg fun hall => ?_⟩
  exact absurd (List.all_eq_true.mp hall 'e' h) (by decide)

theorem mem_stripZeros (h : 'e' ∈ str) : 'e' ∈ stripZeros str := by
  have hmem : 'e' ∈ str.dropWhile (· = '0') := by
    rw [← List.takeWhile_append_dropWhile (p := (· = '0')) (l := str)] at h
    rcases List.mem_append.mp h with hzeros | hrest
    · exact absurd (List.mem_takeWhile_imp hzeros) (by decide)
    · exact hrest
  simp only [stripZeros, List.ne_nil_of_mem hmem, ↓reduceIte]
  exact hmem

theorem parse_intPart {fracPart : List Char} (hparts : parts str = (str, fracPart)) (h : 'e' ∈ str) :
    ∃ message, parseDecimalString str = .error ⟨.syntaxError, message⟩ := by
  obtain ⟨message, herror⟩ := bigInt_exponent (mem_stripZeros h)
  refine ⟨message, ?_⟩
  rw [parseDecimalString, hparts]
  simp only [List.ne_nil_of_mem h, ↓reduceIte, herror]
  rfl

theorem parse_fracPart {intPart fracPart : List Char} (hparts : parts str = (intPart, fracPart))
    (hi : Numeral intPart) (h : 'e' ∈ fracPart) :
    ∃ message, parseDecimalString str = .error ⟨.syntaxError, message⟩ := by
  obtain ⟨message, herror⟩ := bigInt_exponent h
  refine ⟨message, ?_⟩
  rw [parseDecimalString, hparts]
  simp only [hi.ne_nil, ↓reduceIte, bigInt_stripZeros hi.digits, herror]
  rfl

theorem text_exponent (hm : x.m ≠ 0) (h : 21 < x.n) : ∃ rest, x.text =
    (Nat.toDigits 10 x.s).take 1 ++
      (if (Nat.toDigits 10 x.s).length = 1 then [] else '.' :: (Nat.toDigits 10 x.s).drop 1) ++
      'e' :: rest ∧ '.' ∉ rest := by
  refine ⟨(if x.n - 1 < 0 then '-' else '+') :: Nat.toDigits 10 (x.n - 1).natAbs, ?_, ?_⟩
  · rw [Finite.text]
    simp only [hm, ↓reduceIte]
    rw [if_neg (by omega)]
  · intro hdot
    rw [if_neg (by omega)] at hdot
    rcases List.mem_cons.mp hdot with hsign | hdigits
    · exact absurd hsign (by decide)
    · exact dot_notMem (numeral_toDigits _).digits hdigits

theorem parse_exponent (hm : x.m ≠ 0) (h : 21 < x.n) :
    (∃ message, parseDecimalString x.text = .error ⟨.syntaxError, message⟩) ∨
      ∃ c < 1000, parseDecimalString x.text = .ok c := by
  obtain ⟨rest, htext, hdot⟩ := text_exponent hm h
  rw [htext]
  have hdigits := (numeral_toDigits x.s).digits
  rcases hs : Nat.toDigits 10 x.s with _ | ⟨a, _ | ⟨b, _ | ⟨c, more⟩⟩⟩
  · exact absurd hs Nat.toDigits_ne_nil
  · have ha : a.isDigit = true := hdigits a (by simp [hs])
    have hnone : '.' ∉ a :: 'e' :: rest := by
      intro hmem
      rcases List.mem_cons.mp hmem with rfl | hmem
      · exact absurd ha (by decide)
      · rcases List.mem_cons.mp hmem with heq | hmem
        · exact absurd heq (by decide)
        · exact hdot hmem
    refine .inl (@parse_intPart (a :: 'e' :: rest) ['0', '0'] ?_ (by simp))
    rw [parts, List.idxOf?_eq_none_iff.mpr hnone]
  · have ha : Numeral [a] := ⟨List.cons_ne_nil _ _, fun d hd => hdigits d (by simp [hs, List.mem_singleton.mp hd])⟩
    exact .inl (parse_fracPart (parts_fraction (i := [a]) (f := b :: 'e' :: rest) ha) ha
      (List.mem_cons_of_mem b List.mem_cons_self))
  · have ha : Numeral [a] := ⟨List.cons_ne_nil _ _, fun d hd => hdigits d (by simp [hs, List.mem_singleton.mp hd])⟩
    have hbc : ∀ d ∈ [b, c], d.isDigit = true := fun d hd =>
      hdigits d (by rw [hs]; exact List.mem_cons_of_mem a (List.mem_append_left more hd))
    have hhead := value_lt ha.digits
    have htail := value_lt hbc
    refine .inr ⟨(value [a] : ℤ) * 100 + value [b, c], ?_, ?_⟩
    · simp only [List.length_cons, List.length_nil] at hhead htail
      omega
    · have hparts := parts_fraction (i := [a]) (f := b :: c :: (more ++ 'e' :: rest)) ha
      change parseDecimalString ([a] ++ '.' :: b :: c :: (more ++ 'e' :: rest)) = _
      rw [parseDecimalString, hparts]
      simp only [ha.ne_nil, ↓reduceIte, bigInt_stripZeros ha.digits]
      rw [show (b :: c :: (more ++ 'e' :: rest)).take 2 = [b, c] from rfl]
      change (do
        let fracVal ← bigInt [b, c]
        return (value [a] : ℤ) * 100 + fracVal) = _
      rw [bigInt_digits hbc]
      rfl

def Agrees (x : Finite) : Except Thrown ℤ → Prop
  | .ok c => c = ⌊100 * x.shortestDecimal⌋
  | .error e => e.name = .rangeError ∨ e.name = .typeError

theorem not_agrees_of_le (h : 10 ^ 21 ≤ x.value) : ¬ Agrees x (parseDecimalString (x.toFixed 10)) := by
  have hm : x.m ≠ 0 := by
    intro hzero
    rw [Double.value, hzero] at h
    norm_num at h
  have hn := exponent_of_le h
  rw [Finite.toFixed, if_pos h]
  rcases parse_exponent hm hn with ⟨message, herror⟩ | ⟨c, hc, hok⟩
  · rw [herror]
    rintro (hname | hname) <;> cases hname
  · rw [hok]
    intro heq
    have hten : (10 : ℚ) ^ 21 ≤ x.shortestDecimal := by
      refine le_trans ?_ (le_decimal (x.shortest hm).pos x.n)
      rw [← zpow_natCast]
      exact zpow_le_zpow_right₀ (by norm_num) (by push_cast; omega)
    have hlarge : (1000 : ℤ) ≤ ⌊100 * x.shortestDecimal⌋ := by
      rw [Int.le_floor]
      push_cast
      linarith
    rw [Agrees] at heq
    omega

/-- A number is converted like its shortest decimal exactly when it is below `10 ^ 21` and no whole
cent lies between that decimal and the number moved up by half a unit of the tenth digit. -/
theorem toCentipoints_number_iff (negative : Bool) (x : Finite) (h : negative = true → x.m = 0) :
    Agrees x (toCentipoints (.number (.finite negative x))) ↔ x.value < 10 ^ 21 ∧
      ∀ j : ℤ, (j / 100 : ℚ) ≤ x.shortestDecimal ↔ (j / 100 : ℚ) ≤ x.value + 1 / (2 * 10 ^ 10) := by
  have hparse : toCentipoints (.number (.finite negative x)) = parseDecimalString (x.toFixed 10) :=
    if_neg fun hneg => hneg.2 (h hneg.1)
  rw [hparse]
  by_cases hx : x.value < 10 ^ 21
  · obtain ⟨c, hc, hfloor⟩ := toFixed_floor hx
    rw [hc, and_iff_right hx]
    have hdecimal (j : ℤ) : j ≤ ⌊100 * x.shortestDecimal⌋ ↔ (j / 100 : ℚ) ≤ x.shortestDecimal := by
      rw [Int.le_floor, div_le_iff₀ (by norm_num), mul_comm]
    constructor
    · intro heq j
      rw [← hdecimal, ← hfloor, show c = _ from heq]
    · intro hcents
      change c = _
      apply le_antisymm
      · exact (hdecimal c).mpr ((hcents c).mpr ((hfloor c).mp (le_refl _)))
      · exact (hfloor _).mpr ((hcents _).mp ((hdecimal _).mp (le_refl _)))
  · exact iff_of_false (not_agrees_of_le (not_lt.mp hx)) fun hcond => hx hcond.1

theorem decimal_digit {s : ℕ} (hs : s < 10) (n : ℤ) : decimal s n = s * 10 ^ (n - 1) := by
  rw [decimal, digitCount, Nat.toDigits_of_lt_base hs]
  rfl

def one : Finite where
  m := 2 ^ 52
  e := -52
  fits := by norm_num
  range := by norm_num
  normal := by norm_num
  s := 1
  n := 1
  shortest := by
    intro _
    refine .exact (by decide) rfl (by norm_num [decimal_digit, Double.value]) ?_
    rw [decimal_digit (by decide), sub_self, zpow_zero, Nat.cast_one, mul_one]
    exact ne_of_lt (one_lt_pow₀ (by norm_num) (by decide))
  zero := by norm_num

theorem toCentipoints_one : Agrees one (toCentipoints (.number (.finite false one))) := by
  have hvalue : one.value = 1 := by norm_num [Double.value, one]
  have hdecimal : one.shortestDecimal = 1 := by
    rw [Finite.shortestDecimal, decimal_digit (s := one.s) (by decide)]
    norm_num [one]
  refine (toCentipoints_number_iff false one fun h => (by cases h)).mpr ⟨by norm_num [hvalue], fun j => ?_⟩
  rw [hvalue, hdecimal, div_le_iff₀ (by norm_num), div_le_iff₀ (by norm_num)]
  constructor
  · intro hj
    linarith
  · intro hj
    have hlt : j < 101 := by exact_mod_cast (by linarith : (j : ℚ) < 101)
    exact_mod_cast (by omega : j ≤ 1 * 100)

def sextillion : Finite where
  toDouble := ten21
  s := 1
  n := 22
  shortest := by
    intro _
    refine .exact (by decide) rfl (ten21_value.trans decimal_one.symm) ?_
    rw [decimal_one]
    exact ne_of_lt ten21_lt
  zero := by norm_num [ten21]

theorem sextillion_throws : sextillion.shortestDecimal = 10 ^ 21 ∧
    toCentipoints (.number (.finite false sextillion)) =
      .error ⟨.syntaxError, "Cannot convert 1e+21 to a BigInt"⟩ ∧
    ¬ Agrees sextillion (toCentipoints (.number (.finite false sextillion))) := by
  have hthrows : toCentipoints (.number (.finite false sextillion)) =
      .error ⟨.syntaxError, "Cannot convert 1e+21 to a BigInt"⟩ := by
    have hlarge : 10 ^ 21 ≤ sextillion.value := le_of_eq ten21_value.symm
    change parseDecimalString (sextillion.toFixed 10) = _
    rw [Finite.toFixed, if_pos hlarge]
    decide +kernel
  refine ⟨decimal_one, hthrows, ?_⟩
  rw [hthrows]
  rintro (hname | hname) <;> cases hname

end JitoGame.Centipoints
