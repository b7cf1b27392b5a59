import Mathlib.Data.Nat.Notation
import Mathlib.Data.List.Basic

namespace JitoGame.Json

/-- A string: its UTF-16 code units, whether or not the surrogates come in pairs. -/
abbrev Units := List UInt16

def utf16 (c : Char) : Units :=
  if c.toNat < 0x10000 then [.ofNat c.toNat]
  else [.ofNat (0xD800 + (c.toNat - 0x10000) / 0x400), .ofNat (0xDC00 + (c.toNat - 0x10000) % 0x400)]

def units (s : String) : Units := s.toList.flatMap utf16

def isHigh (u : UInt16) : Bool := 0xD800 ≤ u.toNat && u.toNat < 0xDC00

def isLow (u : UInt16) : Bool := 0xDC00 ≤ u.toNat && u.toNat < 0xE000

def joined (h l : UInt16) : Char :=
  Char.ofNat (0x10000 + (h.toNat - 0xD800) * 0x400 + (l.toNat - 0xDC00))

def shortEscape (u : UInt16) : Option Char :=
  if u = 0x08 then some 'b'
  else if u = 0x09 then some 't'
  else if u = 0x0A then some 'n'
  else if u = 0x0C then some 'f'
  else if u = 0x0D then some 'r'
  else if u = 0x22 then some '"'
  else if u = 0x5C then some '\\'
  else none

def hexEscape (u : UInt16) : List Char :=
  ['\\', 'u', Nat.digitChar (u.toNat / 4096), Nat.digitChar (u.toNat / 256 % 16),
    Nat.digitChar (u.toNat / 16 % 16), Nat.digitChar (u.toNat % 16)]

def escaped (u : UInt16) : List Char :=
  match shortEscape u with
  | some c => ['\\', c]
  | none => if u.toNat < 0x20 || isHigh u || isLow u then hexEscape u else [Char.ofNat u.toNat]

-- a surrogate without its partner is escaped
def quoteBody : Units → List Char
  | [] => []
  | [u] => escaped u
  | h :: l :: s =>
    if isHigh h && isLow l then joined h l :: quoteBody s else escaped h ++ quoteBody (l :: s)

def quote (s : Units) : List Char := '"' :: (quoteBody s ++ ['"'])

def hexValue (c : Char) : Option ℕ :=
  if c.isDigit then some (c.toNat - 48)
  else if 97 ≤ c.toNat && c.toNat ≤ 102 then some (c.toNat - 87)
  else if 65 ≤ c.toNat && c.toNat ≤ 70 then some (c.toNat - 55)
  else none

def hexUnit (a b c d : Char) : Option UInt16 :=
  (hexValue a).bind fun a => (hexValue b).bind fun b => (hexValue c).bind fun c => (hexValue d).map fun d =>
    .ofNat (a * 4096 + b * 256 + c * 16 + d)

def unescape : Char → Option UInt16
  | '"' => some 0x22
  | '\\' => some 0x5C
  | '/' => some 0x2F
  | 'b' => some 0x08
  | 'f' => some 0x0C
  | 'n' => some 0x0A
  | 'r' => some 0x0D
  | 't' => some 0x09
  | _ => none

def parseUnits : List Char → Option (Units × List Char)
  | '"' :: r => some ([], r)
  | '\\' :: 'u' :: a :: b :: c :: d :: r =>
    (hexUnit a b c d).bind fun u => (parseUnits r).map fun p => (u :: p.1, p.2)
  | '\\' :: e :: r => (unescape e).bind fun u => (parseUnits r).map fun p => (u :: p.1, p.2)
  | c :: r =>
    if c = '\\' ∨ c.toNat < 0x20 then none else (parseUnits r).map fun p => (utf16 c ++ p.1, p.2)
  | [] => none

variable {u h l : UInt16}

theorem hexValue_digitChar {n : ℕ} (hn : n < 16) : hexValue n.digitChar = some n := by
  decide +revert

theorem hexUnit_toNat (u : UInt16) : hexUnit (Nat.digitChar (u.toNat / 4096))
    (Nat.digitChar (u.toNat / 256 % 16)) (Nat.digitChar (u.toNat / 16 % 16))
    (Nat.digitChar (u.toNat % 16)) = some u := by
  have hlt := u.toNat_lt
  simp only [hexUnit, hexValue_digitChar (show u.toNat / 4096 < 16 by omega),
    hexValue_digitChar (show u.toNat / 256 % 16 < 16 by omega),
    hexValue_digitChar (show u.toNat / 16 % 16 < 16 by omega),
    hexValue_digitChar (show u.toNat % 16 < 16 by omega), Option.bind_some, Option.map_some]
  have hsum : u.toNat / 4096 * 4096 + u.toNat / 256 % 16 * 256 + u.toNat / 16 % 16 * 16 +
      u.toNat % 16 = u.toNat := by
    omega
  rw [hsum, UInt16.ofNat_toNat]

theorem toNat_ofNat {n : ℕ} (hn : n.isValidChar) : (Char.ofNat n).toNat = n := by
  rw [Char.ofNat, dif_pos hn]
  rfl

theorem toNat_joined (hh : isHigh h = true) (hl : isLow l = true) :
    (joined h l).toNat = 0x10000 + (h.toNat - 0xD800) * 0x400 + (l.toNat - 0xDC00) := by
  simp only [isHigh, isLow, Bool.and_eq_true, decide_eq_true_eq] at hh hl
  exact toNat_ofNat (Or.inr (by omega))

theorem utf16_joined (hh : isHigh h = true) (hl : isLow l = true) : utf16 (joined h l) = [h, l] := by
  rw [utf16, toNat_joined hh hl]
  simp only [isHigh, isLow, Bool.and_eq_true, decide_eq_true_eq] at hh hl
  rw [if_neg (by omega)]
  have hhigh : 0xD800 + (0x10000 + (h.toNat - 0xD800) * 0x400 + (l.toNat - 0xDC00) - 0x10000) / 0x400 =
      h.toNat := by
    omega
  have hlow : 0xDC00 + (0x10000 + (h.toNat - 0xD800) * 0x400 + (l.toNat - 0xDC00) - 0x10000) % 0x400 =
      l.toNat := by
    omega
  rw [hhigh, hlow, UInt16.ofNat_toNat, UInt16.ofNat_toNat]

theorem parseUnits_char {c : Char} (hquote : c ≠ '"') (hback : c ≠ '\\') (hprint : 0x20 ≤ c.toNat)
    (r : List Char) : parseUnits (c :: r) = (parseUnits r).map fun p => (utf16 c ++ p.1, p.2) := by
  rw [parseUnits.eq_def]
  split
  · rename_i heq
    exact absurd (List.cons.inj heq).1 hquote
  · rename_i heq
    exact absurd (List.cons.inj heq).1 hback
  · rename_i heq
    exact absurd (List.cons.inj heq).1 hback
  · rename_i heq
    obtain ⟨rfl, rfl⟩ := List.cons.inj heq
    rw [if_neg (not_or.mpr ⟨hback, Nat.not_lt.mpr hprint⟩)]
  · rename_i heq
    cases heq

theorem parseUnits_short {c : Char} (hc : shortEscape u = some c) (r : List Char) :
    parseUnits ('\\' :: c :: r) = (parseUnits r).map fun p => (u :: p.1, p.2) := by
  unfold shortEscape at hc
  split_ifs at hc with h₁ h₂ h₃ h₄ h₅ h₆ h₇ <;>
  · obtain rfl := Option.some.inj hc
    subst u
    simp [parseUnits, unescape]

theorem parseUnits_hex (u : UInt16) (r : List Char) :
    parseUnits (hexEscape u ++ r) = (parseUnits r).map fun p => (u :: p.1, p.2) := by
  simp [parseUnits, hexEscape, hexUnit_toNat]

theorem parseUnits_escaped (u : UInt16) (r : List Char) :
    parseUnits (escaped u ++ r) = (parseUnits r).map fun p => (u :: p.1, p.2) := by
  unfold escaped
  split
  · rename_i c hc
    exact parseUnits_short hc r
  · rename_i hshort
    split
    · exact parseUnits_hex u r
    · rename_i hplain
      simp only [isHigh, isLow, Bool.or_eq_true, Bool.and_eq_true, decide_eq_true_eq, not_or, not_and,
        Nat.not_lt] at hplain
      have hlt := u.toNat_lt
      have hvalid : u.toNat.isValidChar := by
        unfold Nat.isValidChar
        omega
      have hnat := toNat_ofNat hvalid
      have hunits : utf16 (Char.ofNat u.toNat) = [u] := by
        rw [utf16, hnat, if_pos (by omega), UInt16.ofNat_toNat]
      have hne {c : Char} (hc : shortEscape (.ofNat c.toNat) ≠ none) : Char.ofNat u.toNat ≠ c := by
        rintro rfl
        rw [hnat, UInt16.ofNat_toNat] at hc
        exact hc hshort
      rw [List.singleton_append, parseUnits_char (hne (by decide)) (hne (by decide)) (by omega), hunits]
      rfl

theorem parseUnits_quoteBody (s : Units) (r : List Char) :
    parseUnits (quoteBody s ++ '"' :: r) = some (s, r) := by
  fun_induction quoteBody s with
  | case1 => simp [parseUnits]
  | case2 u => simp [parseUnits_escaped, parseUnits]
  | case3 h l s hpair ih =>
    obtain ⟨hh, hl⟩ := Bool.and_eq_true_iff.mp hpair
    have hnat := toNat_joined hh hl
    have hne {c : Char} (hc : c.toNat < 0x10000) : joined h l ≠ c := by
      rintro rfl
      omega
    rw [List.cons_append, parseUnits_char (hne (by decide)) (hne (by decide)) (by omega), ih,
      utf16_joined hh hl]
    rfl
  | case4 h l s hpair ih =>
    rw [List.append_assoc, parseUnits_escaped, ih]
    rfl

end JitoGame.Json
