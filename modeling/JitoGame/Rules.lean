import JitoGame.Schema

namespace JitoGame

open Transactions

variable {C R α β : Type} {P : Protocol (schema C R)} {i : ℕ} {c : C}
variable {Q : α → Local (schema C R) → World (schema C R) → Prop}
variable {E : Err → Local (schema C R) → World (schema C R) → Prop}
variable {s : Local (schema C R)} {w : World (schema C R)}

@[simp] theorem writes_nil (d : Db) : applyAll (S := schema C R) [] d = d := rfl

@[simp] theorem writes_cons (x : Write) (ws : List Write) (d : Db) :
    applyAll (S := schema C R) (x :: ws) d = applyAll (S := schema C R) ws (x.apply d) := rfl

theorem wp_idempotent (findReplay : Prog (schema C R) (Option α)) (run : Prog (schema C R) α)
    (hfind : wp P i c findReplay (fun o s' w' => match o with
      | some a => Q a s' w'
      | none => wp P i c run Q (fun e s'' w'' =>
          (e ≠ .uniqueViolation → E e s'' w'') ∧ (e = .uniqueViolation →
            wp P i c findReplay (fun o s' w' => match o with
              | some a => Q a s' w'
              | none => E e s' w') E s'' w'')) s' w') E s w) :
    wp P i c (idempotent findReplay run) Q E s w := by
  rw [idempotent, wp_bind]
  refine wp_mono _ hfind (fun o s' w' ho => ?_) fun _ _ _ he => he
  cases o with
  | some a => exact ho
  | none =>
    rw [wp_tryCatch]
    apply wp_mono _ ho (fun _ _ _ h => h)
    intro e s'' w'' he
    by_cases hu : e = .uniqueViolation
    · simp only [hu, if_true]
      rw [wp_bind]
      refine wp_mono _ (he.2 hu) (fun o s' w' ho => ?_) fun _ _ _ h => h
      cases o with
      | some a => exact ho
      | none => exact hu ▸ ho
    · simp only [hu, if_false]
      exact he.1 hu

end JitoGame
