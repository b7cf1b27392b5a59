import JitoGame.Transactions.Stretch

namespace JitoGame.Transactions

variable {S : Schema} {α β : Type}

namespace Prog

def check : Except S.Err α → Prog S α
  | .ok a => ret a
  | .error e => fail e

def require (p : Prop) [Decidable p] (e : S.Err) : Prog S Unit := if p then ret () else fail e

/-- An `INSERT` into a table with a unique index: it waits for a concurrent insert of the same key,
and fails once that one is committed. -/
def insert (tag : S.Tag) (lock : S.Lock) (taken : S.Db → Bool) (ws : List S.Write) (duplicate : S.Err) :
    Prog S Unit := do
  let v ← exec tag (fun _ => some lock) (fun v => if taken v.db then [] else ws)
  require (taken v.db = false) duplicate

end Prog

variable {P : Protocol S} {i : ℕ} {c : S.Call} {Q : α → Local S → World S → Prop}
variable {E : S.Err → Local S → World S → Prop} {s : Local S} {w : World S}

theorem wp_check (x : Except S.Err α) : wp P i c (.check x) Q E s w ↔
    (∀ a, x = .ok a → Q a s w) ∧ ∀ e, x = .error e → E e s w := by
  cases x with
  | ok a => simp [Prog.check, wp]
  | error e => simp [Prog.check, wp]

theorem wp_require {Q : Unit → Local S → World S → Prop} (p : Prop) [Decidable p] (e : S.Err) :
    wp P i c (.require p e) Q E s w ↔ (p → Q () s w) ∧ (¬ p → E e s w) := by
  by_cases hp : p
  · simp [Prog.require, wp, hp]
  · simp [Prog.require, wp, hp]

theorem wp_insert {start : ℕ} {ws ws' : List S.Write} {held : List (Resource S)}
    (h : s.In start ws held) {tag : S.Tag} {lock : S.Lock} {taken : S.Db → Bool} {duplicate : S.Err}
    {Q : Unit → Local S → World S → Prop}
    (hE : ∀ w', Along P i s w s.fault w' → E S.fault s.fault w')
    (hfoot : ∀ x ∈ ws', ∀ r ∈ P.foot x, r ∈ .row lock :: held)
    (hdup : ∀ s' w', s'.In start ws (.row lock :: held) → Along P i s w s' w' →
      taken (applyAll ws w'.db) = true → E duplicate s' w')
    (hQ : ∀ s' w', s'.In start (ws ++ ws') (.row lock :: held) → Along P i s w s' w' →
      taken (applyAll ws w'.db) = false → Q () s' w') :
    wp P i c (.insert tag lock taken ws' duplicate) Q E s w := by
  rw [Prog.insert, wp_bind]
  refine h.wp_exec hE (fun w' _ x hx => ?_) (fun s' w' v hv hin hal _ => ?_)
  · split at hx
    · cases hx
    · exact hfoot x hx
  · subst hv
    rw [wp_require]
    constructor
    · intro ht
      rw [ht] at hin
      exact hQ s' w' hin hal ht
    · intro ht
      rw [Bool.not_eq_false] at ht
      rw [ht] at hin
      exact hdup s' w' (by simpa using hin) hal ht

end JitoGame.Transactions
