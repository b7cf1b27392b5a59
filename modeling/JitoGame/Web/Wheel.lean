import Mathlib.Data.Fin.VecNotation
import Mathlib.Data.Int.Notation
import Mathlib.Tactic.SplitIfs

namespace JitoGame.Web

/-! The timing of a draw, `game-core/src/wheel.ts`. -/

-- outer, middle and inner ring
abbrev RingIndex := Fin 3

abbrev Digits := RingIndex → ℕ

def ringStopMs : RingIndex → ℤ := ![5000, 7000, 9000]

def drawSettleMs : ℤ := 500

def drawTotalMs : ℤ := ringStopMs 2 + drawSettleMs

def digitsOf (triple : ℕ) : Digits := ![triple / 100 % 10, triple / 10 % 10, triple % 10]

def revealedDigitCount (elapsedMs : ℤ) (stops : List ℤ := List.ofFn ringStopMs) : ℕ :=
  stops.foldl (fun n s => if s ≤ elapsedMs then n + 1 else n) 0

theorem revealedDigitCount_eq (elapsedMs : ℤ) : revealedDigitCount elapsedMs =
    if 9000 ≤ elapsedMs then 3 else if 7000 ≤ elapsedMs then 2 else
      if 5000 ≤ elapsedMs then 1 else 0 := by
  have hstops : List.ofFn ringStopMs = [5000, 7000, 9000] := by decide
  simp only [revealedDigitCount, hstops, List.foldl_cons, List.foldl_nil]
  split_ifs <;> omega

theorem revealedDigitCount_le (elapsedMs : ℤ) : revealedDigitCount elapsedMs ≤ 3 := by
  rw [revealedDigitCount_eq]
  split_ifs <;> omega

end JitoGame.Web
