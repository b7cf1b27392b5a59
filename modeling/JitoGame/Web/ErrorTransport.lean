import JitoGame.ErrorEnvelope
import JitoGame.SerializerRoundTrip
import JitoGame.Web.Client

namespace JitoGame

open Json (Units Value Step units)
open Centipoints (Finite Double)

namespace Unknown

def Free (v : Unknown) : Prop := ∀ path n, v.follow path ≠ .bigint n

variable {v : Unknown} {l : List Unknown} {m : List (Units × Unknown)}

theorem free_leaf (hv : ∀ n, v ≠ .bigint n) (hget : ∀ s, v.get s = .undefined) : Free v := by
  intro path n
  cases path with
  | nil => exact hv n
  | cons s path =>
    rw [follow, hget s, follow_undefined]
    exact fun heq => by cases heq

theorem free_undefined : Free .undefined :=
  free_leaf (fun _ heq => by cases heq) fun s => by cases s <;> rfl

theorem Free.get (h : Free v) (s : Step) : Free (v.get s) := fun path n => h (s :: path) n

theorem Free.array (h : ∀ v ∈ l, Free v) : Free (.array l) := by
  intro path n heq
  cases path with
  | nil => cases heq
  | cons s path =>
    cases s with
    | key k => exact free_undefined path n heq
    | index i =>
      change (l[i]?.getD .undefined).follow path = _ at heq
      cases hi : l[i]? with
      | none =>
        rw [hi] at heq
        exact free_undefined path n heq
      | some v =>
        rw [hi] at heq
        exact h v (List.mem_of_getElem? hi) path n heq

theorem Free.object (h : ∀ p ∈ m, Free p.2) : Free (.object m) := by
  intro path n heq
  cases path with
  | nil => cases heq
  | cons s path =>
    cases s with
    | key k =>
      change ((m.lookup k).getD .undefined).follow path = _ at heq
      cases hk : m.lookup k with
      | none =>
        rw [hk] at heq
        exact free_undefined path n heq
      | some v =>
        rw [hk] at heq
        obtain ⟨pre, post, hm, -⟩ := List.lookup_eq_some_iff.mp hk
        exact h (k, v) (by rw [hm]; simp) path n heq
    | index i => exact free_undefined path n heq

end Unknown

namespace Http

open Unknown

end Http

end JitoGame
