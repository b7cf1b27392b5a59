import JitoGame.Transactions.Machine

namespace JitoGame.Transactions

variable {S : Schema}

def own (i : ℕ) (log : List (Commit S)) : List (Commit S) := log.filter fun c => c.proc = i

theorem own_cons_self (c : Commit S) (log : List (Commit S)) :
    own c.proc (c :: log) = c :: own c.proc log := by
  simp [own]

theorem own_cons_other {i : ℕ} {c : Commit S} (h : c.proc ≠ i) (log : List (Commit S)) :
    own i (c :: log) = own i log := by
  simp [own, h]

theorem own_push {i : ℕ} {c : Commit S} {w : World S} (hi : c.proc = i) (h : own i w.log = []) :
    own i (w.push c).log = [c] := by
  subst hi
  exact (own_cons_self c w.log).trans (by rw [h])

theorem mem_own {i : ℕ} {c : Commit S} {log : List (Commit S)} :
    c ∈ own i log ↔ c ∈ log ∧ c.proc = i := by
  simp [own]

theorem suffix_apart {c c' : Commit S} {older older' log : List (Commit S)} (hs : (c :: older) <:+ log)
    (hs' : (c' :: older') <:+ log) (hne : c :: older ≠ c' :: older') :
    (c :: older) <:+ older' ∨ (c' :: older') <:+ older := by
  rcases List.suffix_or_suffix_of_suffix hs hs' with hle | hle
  · exact .inl ((List.suffix_cons_iff.mp hle).resolve_left hne)
  · exact .inr ((List.suffix_cons_iff.mp hle).resolve_left hne.symm)

def replay (d : S.Db) : List (Commit S) → S.Db
  | [] => d
  | c :: log => applyAll c.writes (replay d log)

def Chronicle (spec : Commit S → S.Db → Prop) (d : S.Db) : List (Commit S) → Prop
  | [] => True
  | c :: log => spec c (replay d log) ∧ Chronicle spec d log

namespace Chronicle

variable {spec spec' : Commit S → S.Db → Prop} {d : S.Db} {log : List (Commit S)} {c : Commit S}

theorem imp (h : Chronicle spec d log) (hs : ∀ c x, spec c x → spec' c x) : Chronicle spec' d log := by
  induction log with
  | nil => trivial
  | cons c log ih => exact ⟨hs _ _ h.1, ih h.2⟩

theorem suffix {log' : List (Commit S)} (h : Chronicle spec d log) (hs : log' <:+ log) :
    Chronicle spec d log' := by
  obtain ⟨front, rfl⟩ := hs
  induction front with
  | nil => exact h
  | cons c front ih => exact ih h.2

theorem found (h : Chronicle spec d log) (hc : c ∈ log) :
    ∃ older, (c :: older) <:+ log ∧ spec c (replay d older) := by
  obtain ⟨newer, older, rfl⟩ := List.append_of_mem hc
  exact ⟨older, List.suffix_append _ _, (h.suffix (List.suffix_append newer _)).1⟩

theorem keeps {I : S.Db → Prop} (h : Chronicle spec d log) (h₀ : I d)
    (hI : ∀ c x, spec c x → I x → I (applyAll c.writes x)) : I (replay d log) := by
  induction log with
  | nil => exact h₀
  | cons c log ih => exact hI c _ h.1 (ih h.2)

end Chronicle

end JitoGame.Transactions
