import Mathlib.Data.Nat.Notation
import Mathlib.Data.Int.Notation

namespace JitoGame.Decimals

theorem toDigits_inj {m n : ℕ} (h : Nat.toDigits 10 m = Nat.toDigits 10 n) : m = n := by
  have hm := Nat.ofDigitChars_toDigits (n := m) (by decide : 1 < 10) (by decide)
  rw [h, Nat.ofDigitChars_toDigits (by decide) (by decide)] at hm
  exact hm.symm

theorem isDigit_of_toDigits {n : ℕ} {c : Char} {rest : List Char} (h : Nat.toDigits 10 n = c :: rest) :
    c.isDigit = true :=
  Nat.isDigit_of_mem_toDigits (b := 10) (by decide) (by decide) (h ▸ List.mem_cons_self)

theorem toList_toString (n : ℕ) : (toString (n : ℤ)).toList = Nat.toDigits 10 n := by
  change (Nat.repr n).toList = _
  rw [Nat.toList_repr]

theorem toList_toString_negSucc (n : ℕ) :
    (toString (Int.negSucc n)).toList = '-' :: Nat.toDigits 10 (n + 1) := by
  change ("-" ++ Nat.repr (n + 1)).toList = _
  rw [String.toList_append, Nat.toList_repr]
  rfl

theorem toString_inj {a b : ℤ} (h : toString a = toString b) : a = b := by
  have hlist := congrArg String.toList h
  have hminus {n : ℕ} {rest : List Char} (hn : Nat.toDigits 10 n = '-' :: rest) : False :=
    absurd (isDigit_of_toDigits hn) (by decide)
  cases a with
  | ofNat m =>
    have hm : (toString (Int.ofNat m)).toList = Nat.toDigits 10 m := toList_toString m
    cases b with
    | ofNat n =>
      have hn : (toString (Int.ofNat n)).toList = Nat.toDigits 10 n := toList_toString n
      rw [hm, hn] at hlist
      exact congrArg Int.ofNat (toDigits_inj hlist)
    | negSucc n =>
      rw [hm, toList_toString_negSucc] at hlist
      exact (hminus hlist).elim
  | negSucc m =>
    cases b with
    | ofNat n =>
      have hn : (toString (Int.ofNat n)).toList = Nat.toDigits 10 n := toList_toString n
      rw [hn, toList_toString_negSucc] at hlist
      exact (hminus hlist.symm).elim
    | negSucc n =>
      rw [toList_toString_negSucc, toList_toString_negSucc] at hlist
      exact congrArg Int.negSucc (Nat.succ.inj (toDigits_inj (List.cons.inj hlist).2))

end JitoGame.Decimals
