import JitoGame.Decimals
import Mathlib.Algebra.Order.Floor.Ring
import Mathlib.Data.Rat.Floor
import Mathlib.Tactic.FieldSimp
import Mathlib.Tactic.Linarith
import Mathlib.Tactic.NormNum
import Mathlib.Tactic.Positivity
import Mathlib.Tactic.Ring

namespace JitoGame.Decimals

variable {l m i f : List Char} {v w : ℚ}

def value (l : List Char) : ℕ := Nat.ofDigitChars 10 l 0

structure Numeral (l : List Char) : Prop where
  ne_nil : l ≠ []
  digits : ∀ c ∈ l, c.isDigit = true

inductive Denotes : List Char → ℚ → Prop
  | whole {i : List Char} (hi : Numeral i) : Denotes i (value i)
  | fraction {i f : List Char} (hi : Numeral i) (hf : Numeral f) :
    Denotes (i ++ '.' :: f) (value i + value f / 10 ^ f.length)

def Canonical (l : List Char) (v : ℚ) : Prop :=
  ∃ i f, l = i ++ '.' :: f ∧ Numeral i ∧ Numeral f ∧ f.length = 2 ∧
    (1 < i.length → i.head? ≠ some '0') ∧ v = value i + value f / 100

theorem value_append (l m : List Char) : value (l ++ m) = 10 ^ m.length * value l + value m := by
  rw [value, Nat.ofDigitChars_append, Nat.ofDigitChars_eq_ofDigitChars_zero]
  rfl

theorem value_cons (c : Char) (l : List Char) :
    value (c :: l) = 10 ^ l.length * (c.toNat - '0'.toNat) + value l := by
  rw [value, Nat.ofDigitChars_cons, Nat.ofDigitChars_eq_ofDigitChars_zero, Nat.mul_zero, Nat.zero_add]
  rfl

theorem value_toDigits (n : ℕ) : value (Nat.toDigits 10 n) = n :=
  Nat.ofDigitChars_toDigits (by decide) (by decide)

theorem numeral_toDigits (n : ℕ) : Numeral (Nat.toDigits 10 n) :=
  ⟨Nat.toDigits_ne_nil, fun _ hc => Nat.isDigit_of_mem_toDigits (by decide) (by decide) hc⟩

theorem value_replicate_zero (n : ℕ) : value (List.replicate n '0') = 0 := by
  rw [value, Nat.ofDigitChars_replicate_zero, Nat.mul_zero]

theorem digit_bounds {c : Char} (hc : c.isDigit = true) : '0'.toNat ≤ c.toNat ∧ c.toNat ≤ '9'.toNat := by
  simp only [Char.isDigit, Bool.and_eq_true, decide_eq_true_eq, ge_iff_le] at hc
  exact hc

theorem value_lt (h : ∀ c ∈ l, c.isDigit = true) : value l < 10 ^ l.length := by
  induction l with
  | nil => decide
  | cons c l ih =>
    have hl := ih fun d hd => h d (List.mem_cons_of_mem c hd)
    have hc := (digit_bounds (h c List.mem_cons_self)).2
    have hd : c.toNat - '0'.toNat ≤ 9 := by
      simp only [Char.reduceToNat] at hc ⊢
      omega
    have hmul := Nat.mul_le_mul_left (10 ^ l.length) hd
    rw [value_cons, List.length_cons, pow_succ]
    omega

theorem eq_of_value_eq (hl : ∀ c ∈ l, c.isDigit = true) (hm : ∀ c ∈ m, c.isDigit = true)
    (hlength : l.length = m.length) (h : value l = value m) : l = m := by
  induction l generalizing m with
  | nil => exact (List.length_eq_zero_iff.mp hlength.symm).symm
  | cons c l ih =>
    cases m with
    | nil => cases hlength
    | cons d m =>
      have hlength' : l.length = m.length := Nat.succ.inj hlength
      have hl' : ∀ x ∈ l, x.isDigit = true := fun x hx => hl x (List.mem_cons_of_mem c hx)
      have hm' : ∀ x ∈ m, x.isDigit = true := fun x hx => hm x (List.mem_cons_of_mem d hx)
      have hlt := value_lt hl'
      have hmt := value_lt hm'
      rw [value_cons, value_cons, hlength'] at h
      rw [hlength'] at hlt
      -- the leading digits are the quotients by the power, the rests the remainders
      have hrest : value l = value m := by
        have hmod := congrArg (· % 10 ^ m.length) h
        simp only [Nat.mul_add_mod, Nat.mod_eq_of_lt hlt, Nat.mod_eq_of_lt hmt] at hmod
        exact hmod
      have hlead : c.toNat - '0'.toNat = d.toNat - '0'.toNat := by
        rw [hrest, Nat.add_right_cancel_iff] at h
        exact Nat.eq_of_mul_eq_mul_left (by positivity) h
      have hc := (digit_bounds (hl c List.mem_cons_self)).1
      have hd := (digit_bounds (hm d List.mem_cons_self)).1
      have hchar : c = d := Char.ext (UInt32.toNat_inj.mp (by
        change c.toNat = d.toNat
        omega))
      rw [hchar, ih hl' hm' hlength' hrest]

theorem value_dropZeros (l : List Char) : value (l.dropWhile (· = '0')) = value l := by
  induction l with
  | nil => rfl
  | cons c l ih =>
    by_cases hc : c = '0'
    · subst hc
      rw [List.dropWhile_cons_of_pos (by decide), ih, value_cons]
      simp
    · rw [List.dropWhile_cons_of_neg (by simpa using hc)]

theorem dot_notMem (h : ∀ c ∈ l, c.isDigit = true) : '.' ∉ l := fun hmem =>
  absurd (h '.' hmem) (by decide)

theorem eq_of_append_dot {i' f' : List Char} (hi : Numeral i) (hi' : Numeral i')
    (h : i ++ '.' :: f = i' ++ '.' :: f') : i = i' ∧ f = f' := by
  have hsplit := List.append_eq_append_iff.mp h
  rcases hsplit with ⟨r, hr, hr'⟩ | ⟨r, hr, hr'⟩
  · cases r with
    | nil =>
      simp only [List.append_nil] at hr
      simp only [List.nil_append, List.cons.injEq, true_and] at hr'
      exact ⟨hr.symm, hr'⟩
    | cons c r =>
      simp only [List.cons_append, List.cons.injEq] at hr'
      refine absurd ?_ (dot_notMem hi'.digits)
      rw [hr, hr'.1]
      simp
  · cases r with
    | nil =>
      simp only [List.append_nil] at hr
      simp only [List.nil_append, List.cons.injEq, true_and] at hr'
      exact ⟨hr, hr'.symm⟩
    | cons c r =>
      simp only [List.cons_append, List.cons.injEq] at hr'
      refine absurd ?_ (dot_notMem hi.digits)
      rw [hr, hr'.1]
      simp

theorem Denotes.unique (h : Denotes l v) (h' : Denotes l w) : v = w := by
  cases h with
  | whole hi =>
    cases h' with
    | whole _ => rfl
    | fraction _ _ => exact absurd (by simp) (dot_notMem hi.digits)
  | @fraction i f hi hf =>
    generalize hl : i ++ '.' :: f = l at h'
    cases h' with
    | whole hi' => exact absurd (by rw [← hl]; simp) (dot_notMem hi'.digits)
    | fraction hi' hf' =>
      obtain ⟨rfl, rfl⟩ := eq_of_append_dot hi hi' hl
      rfl

theorem Denotes.nonneg (h : Denotes l v) : 0 ≤ v := by
  cases h <;> positivity

theorem Canonical.denotes (h : Canonical l v) : Denotes l v := by
  obtain ⟨i, f, rfl, hi, hf, hlength, -, rfl⟩ := h
  have h := Denotes.fraction hi hf
  rw [hlength] at h
  norm_num at h
  exact h

theorem length_le_of_value_le (hi : Numeral i) (hlead : 1 < i.length → i.head? ≠ some '0')
    (hm : ∀ c ∈ m, c.isDigit = true) (hne : m ≠ []) (h : value i ≤ value m) : i.length ≤ m.length := by
  by_contra hlong
  have hpos : 0 < m.length := List.length_pos_iff.mpr hne
  have hlead := hlead (by omega)
  cases i with
  | nil => exact hi.ne_nil rfl
  | cons c rest =>
    have hzero : c ≠ '0' := fun hc => hlead (by rw [hc]; rfl)
    have hc := (digit_bounds (hi.digits c List.mem_cons_self)).1
    have hdigit : 1 ≤ c.toNat - '0'.toNat := by
      have hne : c.toNat ≠ '0'.toNat := fun heq => hzero (Char.ext (UInt32.toNat_inj.mp heq))
      omega
    have hlt := value_lt hm
    have hpow : 10 ^ m.length ≤ 10 ^ rest.length :=
      Nat.pow_le_pow_right (by decide) (by rw [List.length_cons] at hlong; omega)
    have hmul := Nat.mul_le_mul_left (10 ^ rest.length) hdigit
    rw [value_cons] at h
    omega

theorem Canonical.unique (h : Canonical l v) (h' : Canonical m v) : l = m := by
  obtain ⟨i, f, rfl, hi, hf, hlength, hlead, rfl⟩ := h
  obtain ⟨i', f', rfl, hi', hf', hlength', hlead', hv⟩ := h'
  have hlt := value_lt hf.digits
  have hlt' := value_lt hf'.digits
  rw [hlength] at hlt
  rw [hlength'] at hlt'
  have hcents : (value i : ℚ) * 100 + value f = value i' * 100 + value f' := by linarith
  norm_cast at hcents
  have hwhole : value i = value i' := by omega
  have hfrac : value f = value f' := by omega
  have hle := length_le_of_value_le hi hlead hi'.digits hi'.ne_nil (le_of_eq hwhole)
  have hge := length_le_of_value_le hi' hlead' hi.digits hi.ne_nil (le_of_eq hwhole.symm)
  rw [eq_of_value_eq hi.digits hi'.digits (Nat.le_antisymm hle hge) hwhole,
    eq_of_value_eq hf.digits hf'.digits (hlength.trans hlength'.symm) hfrac]

theorem head_toDigits {n : ℕ} (h : 1 < (Nat.toDigits 10 n).length) :
    (Nat.toDigits 10 n).head? ≠ some '0' := by
  intro hhead
  obtain ⟨rest, hrest⟩ := List.head?_eq_some_iff.mp hhead
  -- the digits after a leading zero would give the same value in fewer places
  have hvalue : value rest = n := by
    rw [← value_toDigits n, hrest, value_cons]
    simp
  have hlt : n < 10 ^ rest.length := by
    rw [← hvalue]
    exact value_lt fun c hc => (numeral_toDigits n).digits c (hrest ▸ List.mem_cons_of_mem _ hc)
  rw [hrest, List.length_cons] at h
  have hle := (Nat.length_toDigits_le_iff (b := 10) (n := n) (by decide) (by omega)).mpr hlt
  rw [hrest, List.length_cons] at hle
  omega

theorem floor_fraction (hf : Numeral f) : ⌊(100 : ℚ) * (value f / 10 ^ f.length)⌋ =
    value ((f.take 2).rightpad 2 '0') := by
  rcases f with _ | ⟨a, _ | ⟨b, rest⟩⟩
  · exact absurd rfl hf.ne_nil
  · have hpad : value (([a].take 2).rightpad 2 '0') = 10 * value [a] := by
      change value ([a] ++ List.replicate 1 '0') = _
      rw [value_append, value_replicate_zero 1]
      rfl
    rw [hpad, Int.floor_eq_iff]
    push_cast
    simp only [List.length_singleton]
    constructor <;> linarith
  · have hrest : ∀ c ∈ rest, c.isDigit = true := fun c hc => hf.digits c (by simp [hc])
    have hlt : (value rest : ℚ) < 10 ^ rest.length := by exact_mod_cast value_lt hrest
    have hvalue : value (a :: b :: rest) = 10 ^ rest.length * value [a, b] + value rest :=
      value_append [a, b] rest
    have hscaled : (100 : ℚ) * (value (a :: b :: rest) / 10 ^ (a :: b :: rest).length) =
        value [a, b] + value rest / 10 ^ rest.length := by
      rw [hvalue, List.length_cons, List.length_cons, pow_succ, pow_succ]
      push_cast
      field_simp
      ring
    rw [hscaled, Int.floor_eq_iff]
    have hsmall : (value rest : ℚ) / 10 ^ rest.length < 1 := (div_lt_one (by positivity)).mpr hlt
    have hnonneg : (0 : ℚ) ≤ value rest / 10 ^ rest.length := by positivity
    rw [show ((a :: b :: rest).take 2).rightpad 2 '0' = [a, b] from rfl]
    push_cast
    constructor <;> linarith

end JitoGame.Decimals
