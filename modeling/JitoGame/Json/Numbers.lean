import JitoGame.Numerals

namespace JitoGame.Json

open Decimals

def isExponent : List Char → Bool
  | [] => true
  | c :: r =>
    let digits := match r with
      | '+' :: d => d
      | '-' :: d => d
      | d => d
    (c = 'e' || c = 'E') && !digits.isEmpty && digits.all Char.isDigit

def isFraction : List Char → Bool
  | '.' :: r => !(r.takeWhile Char.isDigit).isEmpty && isExponent (r.dropWhile Char.isDigit)
  | r => isExponent r

def isWhole : List Char → Bool
  | '0' :: r => isFraction r
  | c :: r => c.isDigit && isFraction (r.dropWhile Char.isDigit)
  | [] => false

def isNumber : List Char → Bool
  | '-' :: r => isWhole r
  | r => isWhole r

structure Number where
  text : List Char
  valid : isNumber text = true
  deriving DecidableEq

def fractionDigits : List Char → List Char
  | '.' :: r => r.takeWhile Char.isDigit
  | _ => []

def exponentText : List Char → List Char
  | '.' :: r => r.dropWhile Char.isDigit
  | r => r

def exponent : List Char → ℤ
  | _ :: '-' :: d => -Decimals.value d
  | _ :: '+' :: d => Decimals.value d
  | _ :: d => Decimals.value d
  | [] => 0

-- of a number, its sign aside
def magnitude (l : List Char) : ℚ :=
  let rest := l.dropWhile Char.isDigit
  Decimals.value (l.takeWhile Char.isDigit ++ fractionDigits rest) *
    10 ^ (exponent (exponentText rest) - (fractionDigits rest).length)

def Number.value (n : Number) : ℚ :=
  match n.text with
  | '-' :: r => -magnitude r
  | r => magnitude r

def isNumberChar (c : Char) : Bool := c.isDigit || c = '-' || c = '+' || c = '.' || c = 'e' || c = 'E'

variable {l r i f x : List Char}

theorem isNumberChar_of_isDigit (hc : c.isDigit = true) : isNumberChar c = true := by
  simp [isNumberChar, hc]

theorem isNumberChar_digits (hr : ∀ c ∈ r.dropWhile Char.isDigit, isNumberChar c = true) :
    ∀ c ∈ r, isNumberChar c = true := by
  intro c hc
  rw [← List.takeWhile_append_dropWhile (p := Char.isDigit) (l := r)] at hc
  rcases List.mem_append.mp hc with hc | hc
  · have hall : (r.takeWhile Char.isDigit).all Char.isDigit = true := List.all_takeWhile
    exact isNumberChar_of_isDigit (List.all_eq_true.mp hall c hc)
  · exact hr c hc

theorem isNumberChar_of_isExponent (h : isExponent l = true) : ∀ c ∈ l, isNumberChar c = true := by
  cases l with
  | nil => exact fun _ hc => absurd hc List.not_mem_nil
  | cons e r =>
    simp only [isExponent, Bool.and_eq_true, Bool.or_eq_true, decide_eq_true_eq] at h
    obtain ⟨⟨he, -⟩, hdigits⟩ := h
    refine List.forall_mem_cons.mpr ⟨by rcases he with rfl | rfl <;> decide, ?_⟩
    split at hdigits
    · exact List.forall_mem_cons.mpr
        ⟨by decide, fun c hc => isNumberChar_of_isDigit (List.all_eq_true.mp hdigits c hc)⟩
    · exact List.forall_mem_cons.mpr
        ⟨by decide, fun c hc => isNumberChar_of_isDigit (List.all_eq_true.mp hdigits c hc)⟩
    · exact fun c hc => isNumberChar_of_isDigit (List.all_eq_true.mp hdigits c hc)

theorem isNumberChar_of_isFraction (h : isFraction l = true) : ∀ c ∈ l, isNumberChar c = true := by
  unfold isFraction at h
  split at h
  · obtain ⟨-, hexp⟩ := Bool.and_eq_true_iff.mp h
    exact List.forall_mem_cons.mpr
      ⟨by decide, isNumberChar_digits (isNumberChar_of_isExponent hexp)⟩
  · exact isNumberChar_of_isExponent h

theorem isNumberChar_of_isWhole (h : isWhole l = true) : ∀ c ∈ l, isNumberChar c = true := by
  unfold isWhole at h
  split at h
  · exact List.forall_mem_cons.mpr ⟨by decide, isNumberChar_of_isFraction h⟩
  · obtain ⟨hdigit, hfrac⟩ := Bool.and_eq_true_iff.mp h
    exact List.forall_mem_cons.mpr ⟨isNumberChar_of_isDigit hdigit,
      isNumberChar_digits (isNumberChar_of_isFraction hfrac)⟩
  · cases h

theorem isWhole_head (h : isWhole l = true) : ∃ c r, l = c :: r ∧ c.isDigit = true := by
  unfold isWhole at h
  split at h
  · exact ⟨_, _, rfl, by decide⟩
  · exact ⟨_, _, rfl, (Bool.and_eq_true_iff.mp h).1⟩
  · cases h

theorem ne_minus (h : isWhole l = true) (r : List Char) : l ≠ '-' :: r := by
  rintro rfl
  obtain ⟨c, s, heq, hc⟩ := isWhole_head h
  obtain ⟨rfl, -⟩ := List.cons.inj heq
  exact absurd hc (by decide)

theorem isNumber_of_isWhole (h : isWhole l = true) : isNumber l = true := by
  unfold isNumber
  split
  · exact absurd rfl (ne_minus h _)
  · exact h

theorem Number.value_of_isWhole {n : Number} (h : isWhole n.text = true) : n.value = magnitude n.text := by
  unfold Number.value
  split
  · rename_i heq
    exact absurd heq (ne_minus h _)
  · rfl

namespace Number

variable (n : Number)

theorem chars : ∀ c ∈ n.text, isNumberChar c = true := by
  have h := n.valid
  unfold isNumber at h
  split at h
  · rename_i heq
    exact heq ▸ List.forall_mem_cons.mpr ⟨by decide, isNumberChar_of_isWhole h⟩
  · exact isNumberChar_of_isWhole h

theorem head : ∃ c r, n.text = c :: r ∧ (c = '-' ∨ c.isDigit = true) := by
  have h := n.valid
  unfold isNumber at h
  split at h
  · rename_i r heq
    exact ⟨'-', r, heq, Or.inl rfl⟩
  · obtain ⟨c, r, heq, hc⟩ := isWhole_head h
    exact ⟨c, r, heq, Or.inr hc⟩

end Number


inductive Exponent : List Char → ℤ → Prop
  | none : Exponent [] 0
  | plus {d : List Char} (hd : Numeral d) : Exponent ('e' :: '+' :: d) (Decimals.value d)
  | minus {d : List Char} (hd : Numeral d) : Exponent ('e' :: '-' :: d) (-Decimals.value d)

def spelled (i f x : List Char) : List Char := i ++ if f.isEmpty then x else '.' :: (f ++ x)

section

variable {e : ℤ}

theorem digits_append (hf : ∀ c ∈ f, c.isDigit = true) (hr : r.head?.all (fun c => !c.isDigit) = true) :
    (f ++ r).takeWhile Char.isDigit = f ∧ (f ++ r).dropWhile Char.isDigit = r := by
  rw [List.takeWhile_append_of_pos hf, List.dropWhile_append_of_pos hf]
  cases r with
  | nil => simp
  | cons c r => simp_all

theorem Exponent.head (hx : Exponent x e) : x.head?.all (fun c => !c.isDigit) = true := by
  cases hx <;> rfl

theorem Exponent.isExponent (hx : Exponent x e) : isExponent x = true := by
  cases hx with
  | none => rfl
  | plus hd =>
    have hall := List.all_eq_true.mpr hd.digits
    simp [Json.isExponent, hd.ne_nil, hall]
  | minus hd =>
    have hall := List.all_eq_true.mpr hd.digits
    simp [Json.isExponent, hd.ne_nil, hall]

theorem Exponent.isFraction (hx : Exponent x e) : isFraction x = true := by
  cases hx with
  | none => rfl
  | plus hd => exact Exponent.isExponent (.plus hd)
  | minus hd => exact Exponent.isExponent (.minus hd)

theorem Exponent.value (hx : Exponent x e) :
    exponentText x = x ∧ exponent x = e ∧ fractionDigits x = [] := by
  cases hx <;> exact ⟨rfl, rfl, rfl⟩

theorem fraction_head (f : List Char) (hx : Exponent x e) :
    (if f.isEmpty then x else '.' :: (f ++ x)).head?.all (fun c => !c.isDigit) = true := by
  split
  · exact hx.head
  · rfl

theorem isFraction_spelled (hf : ∀ c ∈ f, c.isDigit = true) (hx : Exponent x e) :
    isFraction (if f.isEmpty then x else '.' :: (f ++ x)) = true := by
  obtain ⟨htake, hdrop⟩ := digits_append hf hx.head
  split
  · exact hx.isFraction
  · rename_i hne
    simp [isFraction, htake, hdrop, hx.isExponent, hne]

theorem isWhole_spelled (hi : Numeral i) (hlead : i = ['0'] ∨ i.head? ≠ some '0')
    (hf : ∀ c ∈ f, c.isDigit = true) (hx : Exponent x e) : isWhole (spelled i f x) = true := by
  have hfrac := isFraction_spelled hf hx
  rcases hlead with rfl | hlead
  · exact hfrac
  · cases hcons : i with
    | nil => exact absurd hcons hi.ne_nil
    | cons c i' =>
      rw [hcons] at hlead
      have hc : c ≠ '0' := fun heq => hlead (congrArg some heq)
      have hdigits : ∀ c ∈ i', c.isDigit = true :=
        fun c hc => hi.digits c (hcons ▸ List.mem_cons_of_mem _ hc)
      have hdrop := (digits_append hdigits (fraction_head f hx)).2
      have hdigit := hi.digits c (hcons ▸ List.mem_cons_self)
      rw [spelled, List.cons_append, isWhole.eq_def]
      split
      · rename_i heq
        exact absurd (List.cons.inj heq).1 hc
      · rename_i heq
        obtain ⟨rfl, rfl⟩ := List.cons.inj heq
        rw [hdrop, hdigit, hfrac]
        rfl
      · rename_i heq
        cases heq

theorem magnitude_spelled (hi : ∀ c ∈ i, c.isDigit = true) (hf : ∀ c ∈ f, c.isDigit = true)
    (hx : Exponent x e) : magnitude (spelled i f x) = Decimals.value (i ++ f) * 10 ^ (e - f.length) := by
  obtain ⟨htake, hdrop⟩ := digits_append hi (fraction_head f hx)
  obtain ⟨hdigits, hrest⟩ := digits_append hf hx.head
  obtain ⟨htext, hvalue, hnone⟩ := hx.value
  rw [magnitude, spelled, htake, hdrop]
  split
  · rename_i hempty
    obtain rfl := List.isEmpty_iff.mp hempty
    rw [htext, hvalue, hnone]
  · simp only [fractionDigits, exponentText, hdigits, hrest, hvalue]

end

end JitoGame.Json
