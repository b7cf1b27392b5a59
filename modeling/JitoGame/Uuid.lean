import Mathlib.Algebra.Ring.Int.Defs
import Mathlib.Algebra.Ring.Nat
import Mathlib.Data.Fin.Basic
import Mathlib.Data.Nat.Notation

namespace JitoGame

structure Uuid where
  digits : List (Fin 16)
  length_eq : digits.length = 32
  deriving DecidableEq

namespace Uuid

def hexDigits (count n : ℕ) : List (Fin 16) :=
  (List.range count).map fun k => Fin.ofNat 16 (n / 16 ^ (count - 1 - k))

def ofNat (n : ℕ) : Uuid := ⟨hexDigits 32 n, by simp [hexDigits]⟩

def hexDigit (d : Fin 16) : Char :=
  if d.val < 10 then Char.ofNat (48 + d.val) else Char.ofNat (87 + d.val)

def hexValue (c : Char) : Option (Fin 16) :=
  let n := c.toNat
  if 48 ≤ n ∧ n ≤ 57 then some (Fin.ofNat 16 (n - 48))
  else if 97 ≤ n ∧ n ≤ 102 then some (Fin.ofNat 16 (n - 87))
  else if 65 ≤ n ∧ n ≤ 70 then some (Fin.ofNat 16 (n - 55))
  else none

def skipHyphen : List Char → List Char
  | '-' :: cs => cs
  | cs => cs

/-- PostgreSQL's `uuid_in` loop with `n` bytes to go: a hyphen may follow every second byte but the
last. -/
def readBytes : ℕ → List Char → Option (List (Fin 16) × List Char)
  | 0, cs => some ([], cs)
  | n + 1, a :: b :: cs => do
    let x ← hexValue a
    let y ← hexValue b
    let (ds, rest) ← readBytes n (if n % 2 = 0 ∧ 0 < n then skipHyphen cs else cs)
    some (x :: y :: ds, rest)
  | _, _ => none

def ofDigits (ds : List (Fin 16)) : Option Uuid :=
  if h : ds.length = 32 then some ⟨ds, h⟩ else none

/-- The cast `text::uuid`, which accepts either case and optional braces. -/
def parse (s : String) : Option Uuid :=
  match s.toList with
  | '{' :: cs => do
    let (ds, rest) ← readBytes 16 cs
    if rest = ['}'] then ofDigits ds else none
  | cs => do
    let (ds, rest) ← readBytes 16 cs
    if rest = [] then ofDigits ds else none

def text (u : Uuid) : String :=
  let cs := u.digits.map hexDigit
  String.ofList (cs.take 8 ++ '-' :: (cs.drop 8).take 4 ++ '-' :: (cs.drop 12).take 4 ++
    '-' :: (cs.drop 16).take 4 ++ '-' :: cs.drop 20)

theorem hexValue_hexDigit (d : Fin 16) : hexValue (hexDigit d) = some d := by
  revert d
  decide

theorem hexDigit_ne (d : Fin 16) : hexDigit d ≠ '-' ∧ hexDigit d ≠ '{' := by
  revert d
  decide

theorem skipHyphen_hexDigit (d : Fin 16) (cs : List Char) :
    skipHyphen (hexDigit d :: cs) = hexDigit d :: cs := by
  unfold skipHyphen
  split
  · rename_i heq
    exact absurd (List.cons.inj heq).1 (hexDigit_ne d).1
  · rfl

theorem readBytes_digits {n k : ℕ} {ds : List (Fin 16)} (hk : ds.length = 2 * (k + 1)) (cs : List Char) :
    readBytes (n + (k + 1)) (ds.map hexDigit ++ cs) =
      (readBytes n (if n % 2 = 0 ∧ 0 < n then skipHyphen cs else cs)).map fun x => (ds ++ x.1, x.2) := by
  induction k generalizing ds with
  | zero =>
    match ds, hk with
    | [a, b], _ =>
      simp only [List.map_cons, List.map_nil, List.cons_append, List.nil_append, readBytes,
        hexValue_hexDigit, Option.bind_eq_bind, Option.bind_some]
      cases readBytes n (if n % 2 = 0 ∧ 0 < n then skipHyphen cs else cs) <;> rfl
  | succ k ih =>
    match ds, hk with
    | a :: b :: d :: ds, hk =>
      have hrest : (d :: ds).length = 2 * (k + 1) := by
        simp only [List.length_cons] at hk ⊢
        omega
      have hread := ih hrest
      simp only [List.map_cons, List.cons_append] at hread ⊢
      rw [show n + (k + 1 + 1) = n + (k + 1) + 1 from rfl, readBytes]
      simp only [hexValue_hexDigit, Option.bind_eq_bind, Option.bind_some, skipHyphen_hexDigit, ite_self,
        hread]
      cases readBytes n (if n % 2 = 0 ∧ 0 < n then skipHyphen cs else cs) <;> rfl

theorem parse_text (u : Uuid) : parse u.text = some u := by
  obtain ⟨ds, h⟩ := u
  have htext : (text ⟨ds, h⟩).toList = (ds.take 8).map hexDigit ++ '-' ::
      ((ds.drop 8).take 4).map hexDigit ++ '-' :: ((ds.drop 12).take 4).map hexDigit ++
      '-' :: ((ds.drop 16).take 4).map hexDigit ++ '-' :: (ds.drop 20).map hexDigit := by
    simp [text, List.map_take, List.map_drop]
  have hread : readBytes 16 (text ⟨ds, h⟩).toList = some (ds, []) := by
    have h₁ : (ds.take 8).length = 2 * (3 + 1) := by simp [h]
    have h₂ : ((ds.drop 8).take 4).length = 2 * (1 + 1) := by simp [h]
    have h₃ : ((ds.drop 12).take 4).length = 2 * (1 + 1) := by simp [h]
    have h₄ : ((ds.drop 16).take 4).length = 2 * (1 + 1) := by simp [h]
    have h₅ : (ds.drop 20).length = 2 * (5 + 1) := by simp [h]
    have hlast := readBytes_digits (n := 0) h₅ []
    rw [List.append_nil] at hlast
    simp only [htext, List.append_assoc, List.cons_append]
    rw [readBytes_digits (n := 12) h₁]
    simp only [skipHyphen]
    rw [if_pos (by decide), readBytes_digits (n := 10) h₂]
    simp only [skipHyphen]
    rw [if_pos (by decide), readBytes_digits (n := 8) h₃]
    simp only [skipHyphen]
    rw [if_pos (by decide), readBytes_digits (n := 6) h₄]
    simp only [skipHyphen]
    rw [if_pos (by decide), hlast]
    have hpart (n m : ℕ) : (ds.drop n).take m ++ ds.drop (n + m) = ds.drop n := by
      rw [← List.drop_drop, List.take_append_drop]
    have hjoin : ds.take 8 ++ ((ds.drop 8).take 4 ++ ((ds.drop 12).take 4 ++
        ((ds.drop 16).take 4 ++ ds.drop 20))) = ds := by
      rw [hpart 16 4, hpart 12 4, hpart 8 4, List.take_append_drop]
    simp [readBytes, hjoin]
  have hdigits : ofDigits ds = some ⟨ds, h⟩ := dif_pos h
  unfold parse
  split
  · rename_i cs hbrace
    obtain ⟨d, ds', rfl⟩ := List.exists_cons_of_length_pos (l := ds) (by omega)
    rw [htext] at hbrace
    exact absurd (List.cons.inj hbrace).1 (hexDigit_ne d).2
  · simp [hread, hdigits]

end Uuid

end JitoGame
