import JitoGame.Transactions.Chronicle

namespace JitoGame.Transactions

inductive Resource (S : Schema)
  | row (l : S.Lock)
  | id (x : S.Id)

def Local.Holds (s : Local S) : Resource S → Prop
  | .row l => ∃ t, s.tx = some t ∧ l ∈ t.locks
  | .id x => x ∈ s.minted

variable {S : Schema}

/-- A discipline for the writes of a system. `foot` lists the resources a write needs, `agree r`
says that two contents coincide on what `r` protects, `le` is kept by every write, and `spec` is
what a commit is allowed to do to the content it finds. -/
structure Protocol (S : Schema) where
  base : S.Db
  foot : S.Write → List (Resource S)
  agree : Resource S → S.Db → S.Db → Prop
  le : S.Db → S.Db → Prop
  known : S.Db → S.Id → Prop
  spec : Commit S → S.Db → Prop
  agree_refl : ∀ r d, agree r d d
  agree_trans : ∀ {r d₁ d₂ d₃}, agree r d₁ d₂ → agree r d₂ d₃ → agree r d₁ d₃
  frame : ∀ {r x} (d), r ∉ foot x → agree r d (S.apply x d)
  le_refl : ∀ d, le d d
  le_trans : ∀ {d₁ d₂ d₃}, le d₁ d₂ → le d₂ d₃ → le d₁ d₃
  le_apply : ∀ x d, le d (S.apply x d)
  known_apply : ∀ {x d y}, known (S.apply x d) y → known d y ∨ .id y ∈ foot x

variable (P : Protocol S)

namespace Protocol

theorem agree_applyAll {r : Resource S} {ws : List S.Write} (d : S.Db)
    (h : ∀ x ∈ ws, r ∉ P.foot x) : P.agree r d (applyAll ws d) := by
  induction ws generalizing d with
  | nil => exact P.agree_refl r d
  | cons x ws ih =>
    exact P.agree_trans (P.frame d (h x (by simp))) (ih _ fun y hy => h y (by simp [hy]))

theorem le_applyAll (ws : List S.Write) (d : S.Db) : P.le d (applyAll ws d) := by
  induction ws generalizing d with
  | nil => exact P.le_refl d
  | cons x ws ih => exact P.le_trans (P.le_apply x d) (ih _)

theorem known_applyAll {ws : List S.Write} {d : S.Db} {y : S.Id} (h : P.known (applyAll ws d) y) :
    P.known d y ∨ ∃ x ∈ ws, Resource.id y ∈ P.foot x := by
  induction ws generalizing d with
  | nil => exact .inl h
  | cons x ws ih =>
    rcases ih h with hd | ⟨z, hz, hy⟩
    · rcases P.known_apply hd with hd | hy
      · exact .inl hd
      · exact .inr ⟨x, by simp, hy⟩
    · exact .inr ⟨z, by simp [hz], hy⟩

end Protocol

structure World.Ok (P : Protocol S) (w : World S) : Prop where
  db_eq : w.db = replay P.base w.log
  chronicle : Chronicle P.spec P.base w.log
  known : ∀ x, P.known w.db x → x ∈ w.used

/-- What process `i` may assume of the steps of the others while it holds what `s` holds. -/
structure Rely (P : Protocol S) (i : ℕ) (s : Local S) (w w' : World S) : Prop where
  log : w.log <:+ w'.log
  own : own i w'.log = own i w.log
  clock : w.clock ≤ w'.clock
  used : w.used ⊆ w'.used
  agree : ∀ r, s.Holds r → P.agree r w.db w'.db
  le : P.le w.db w'.db
  ok : w'.Ok P

variable {P}

theorem World.Ok.push {w : World S} (h : w.Ok P) {c : Commit S} (hc : P.spec c w.db)
    (hid : ∀ x ∈ c.writes, ∀ y, Resource.id y ∈ P.foot x → y ∈ w.used) : (w.push c).Ok P where
  db_eq := by simp [World.push, replay, h.db_eq]
  chronicle := ⟨h.db_eq ▸ hc, h.chronicle⟩
  known y hy := by
    rcases P.known_applyAll hy with hy | ⟨x, hx, hy⟩
    · exact h.known y hy
    · exact hid x hx y hy

theorem World.Ok.mint {w : World S} (h : w.Ok P) (x : S.Id) : (w.mint x).Ok P :=
  ⟨h.db_eq, h.chronicle, fun y hy => List.mem_cons_of_mem _ (h.known y hy)⟩

theorem World.Ok.tick {w : World S} (h : w.Ok P) (d : ℕ) : (w.tick d).Ok P :=
  ⟨h.db_eq, h.chronicle, h.known⟩

namespace Rely

variable {i : ℕ} {s s' : Local S} {w w₁ w₂ w₃ : World S}

theorem refl (h : w.Ok P) : Rely P i s w w :=
  ⟨List.suffix_refl _, rfl, Nat.le_refl _, fun _ hx => hx, fun r _ => P.agree_refl r _, P.le_refl _, h⟩

theorem trans (h : Rely P i s w₁ w₂) (h' : Rely P i s w₂ w₃) : Rely P i s w₁ w₃ where
  log := h.log.trans h'.log
  own := h'.own.trans h.own
  clock := Nat.le_trans h.clock h'.clock
  used := fun _ hx => h'.used (h.used hx)
  agree r hr := P.agree_trans (h.agree r hr) (h'.agree r hr)
  le := P.le_trans h.le h'.le
  ok := h'.ok

theorem weaken (h : Rely P i s w₁ w₂) (hs : ∀ r, s'.Holds r → s.Holds r) : Rely P i s' w₁ w₂ :=
  { h with agree := fun r hr => h.agree r (hs r hr) }

theorem mint (h : w.Ok P) (x : S.Id) : Rely P i s w (w.mint x) where
  log := List.suffix_refl _
  own := rfl
  clock := Nat.le_refl _
  used := fun _ hx => List.mem_cons_of_mem _ hx
  agree r _ := P.agree_refl r _
  le := P.le_refl _
  ok := h.mint x

theorem tick (h : w.Ok P) (d : ℕ) : Rely P i s w (w.tick d) where
  log := List.suffix_refl _
  own := rfl
  clock := Nat.le_add_right _ _
  used := fun _ hx => hx
  agree r _ := P.agree_refl r _
  le := P.le_refl _
  ok := h.tick d

theorem push {c : Commit S} (h : (w.push c).Ok P) (hi : c.proc ≠ i)
    (hc : ∀ x ∈ c.writes, ∀ r ∈ P.foot x, ¬ s.Holds r) : Rely P i s w (w.push c) where
  log := List.suffix_cons _ _
  own := own_cons_other hi _
  clock := Nat.le_refl _
  used := fun _ hx => hx
  agree r hr := P.agree_applyAll _ fun x hx hrx => hc x hx r hrx hr
  le := P.le_applyAll _ _
  ok := h

end Rely

def Protocol.withSpec (P : Protocol S) (spec : Commit S → S.Db → Prop) : Protocol S := { P with spec }

variable {spec : Commit S → S.Db → Prop} {i : ℕ} {s : Local S} {w w' : World S}

theorem World.Ok.withSpec (h : w.Ok P) (hs : ∀ c d, P.spec c d → spec c d) : w.Ok (P.withSpec spec) :=
  ⟨h.db_eq, h.chronicle.imp hs, h.known⟩

theorem Rely.withSpec (h : Rely P i s w w') (hs : ∀ c d, P.spec c d → spec c d) :
    Rely (P.withSpec spec) i s w w' :=
  ⟨h.log, h.own, h.clock, h.used, h.agree, h.le, h.ok.withSpec hs⟩

end JitoGame.Transactions
