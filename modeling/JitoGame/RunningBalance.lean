import Mathlib.Algebra.BigOperators.Group.List.Basic

namespace JitoGame.RunningBalance

variable {E G : Type*} {before after : E → G} {b b' : G} {es : List E} {e : E}

def Chained (before after : E → G) : G → List E → G → Prop
  | b, [], b' => b = b'
  | b, e :: es, b' => before e = b ∧ Chained before after (after e) es b'

theorem Chained.snoc (h : Chained before after b es b') (he : before e = b') :
    Chained before after b (es ++ [e]) (after e) := by
  induction es generalizing b with
  | nil => exact ⟨he.trans h.symm, rfl⟩
  | cons x es ih => exact ⟨h.1, ih h.2⟩

theorem Chained.found (h : Chained before after b es b') (he : e ∈ es) :
    ∃ pre post, es = pre ++ e :: post ∧ Chained before after b pre (before e) := by
  obtain ⟨pre, post, rfl⟩ := List.append_of_mem he
  refine ⟨pre, post, rfl, ?_⟩
  clear he
  induction pre generalizing b with
  | nil => exact h.1.symm
  | cons x pre ih => exact ⟨h.1, ih h.2⟩

theorem Chained.last (h : Chained before after b es b') : b' = b ∨ ∃ e ∈ es, after e = b' := by
  induction es generalizing b with
  | nil => exact .inl h.symm
  | cons x es ih =>
    rcases ih h.2 with hx | ⟨e, he, hlast⟩
    · exact .inr ⟨x, by simp, hx.symm⟩
    · exact .inr ⟨e, by simp [he], hlast⟩

theorem Chained.sum [AddMonoid G] (delta : E → G) (h : Chained before after b es b')
    (hd : ∀ e ∈ es, after e = before e + delta e) : b' = b + (es.map delta).sum := by
  induction es generalizing b with
  | nil => simpa using h.symm
  | cons e es ih =>
    rw [ih h.2 fun x hx => hd x (by simp [hx]), hd e (by simp), h.1, List.map_cons, List.sum_cons,
      add_assoc]

end JitoGame.RunningBalance
