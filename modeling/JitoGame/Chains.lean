import Mathlib.Logic.Relation

namespace JitoGame

open Relation

variable {α : Type} {r r' : α → α → Prop}

structure Chains (r : α → α → Prop) : Prop where
  functional : ∀ a b c, r a b → r a c → b = c
  injective : ∀ a b c, r a c → r b c → a = b
  acyclic : ∀ a, ¬ TransGen r a a

structure Extends (r r' : α → α → Prop) (a z : α) : Prop where
  iff : ∀ x y, r' x y ↔ r x y ∨ (x = a ∧ y = z)
  last : ∀ y, ¬ r a y
  first : ∀ x, ¬ r x z
  alone : ∀ y, ¬ r z y
  ne : a ≠ z

namespace Extends

variable {a z : α}

theorem reach (h : Extends r r' a z) {x y : α} (hxy : TransGen r' x y) : y = z ∨ TransGen r x y := by
  induction hxy with
  | single hlink =>
    rcases (h.iff _ _).mp hlink with hlink | ⟨-, rfl⟩
    · exact .inr (.single hlink)
    · exact .inl rfl
  | tail _ hlink ih =>
    rcases (h.iff _ _).mp hlink with hold | ⟨-, rfl⟩
    · rcases ih with rfl | ih
      · exact absurd hold (h.alone _)
      · exact .inr (ih.tail hold)
    · exact .inl rfl

theorem leaves (h : Extends r r' a z) {y : α} : ¬ TransGen r' z y := by
  intro hzy
  obtain ⟨x, hlink, -⟩ := TransGen.head'_iff.mp hzy
  rcases (h.iff _ _).mp hlink with hold | ⟨rfl, -⟩
  · exact h.alone _ hold
  · exact h.ne rfl

theorem chains (h : Extends r r' a z) (hr : Chains r) : Chains r' where
  functional x y y' hy hy' := by
    rcases (h.iff _ _).mp hy with hy | ⟨rfl, rfl⟩
    · rcases (h.iff _ _).mp hy' with hy' | ⟨rfl, rfl⟩
      · exact hr.functional _ _ _ hy hy'
      · exact absurd hy (h.last _)
    · rcases (h.iff _ _).mp hy' with hy' | ⟨-, rfl⟩
      · exact absurd hy' (h.last _)
      · rfl
  injective x x' y hx hx' := by
    rcases (h.iff _ _).mp hx with hx | ⟨rfl, rfl⟩
    · rcases (h.iff _ _).mp hx' with hx' | ⟨rfl, rfl⟩
      · exact hr.injective _ _ _ hx hx'
      · exact absurd hx (h.first _)
    · rcases (h.iff _ _).mp hx' with hx' | ⟨rfl, -⟩
      · exact absurd hx' (h.first _)
      · rfl
  acyclic x hx := by
    rcases h.reach hx with rfl | hold
    · exact h.leaves hx
    · exact hr.acyclic x hold

end Extends

theorem Chains.congr (h : Chains r) (hiff : ∀ x y, r' x y ↔ r x y) : Chains r' := by
  obtain rfl : r' = r := by
    funext x y
    exact propext (hiff x y)
  exact h

end JitoGame
