import JitoGame.Transactions.Protocol

namespace JitoGame.Transactions

variable {S : Schema} (P : Protocol S) (i : ℕ) (c : S.Call)

/-- The weakest precondition of the rest of a program of process `i`. Before every action the other
processes may have moved the world along `Rely`; a commit must stay within `P.spec`. -/
def wp {α : Type} : Prog S α → (α → Local S → World S → Prop) → (S.Err → Local S → World S → Prop) →
    Local S → World S → Prop
  | .ret a, Q, _, s, w => Q a s w
  | .fail e, _, E, s, w => E e s w
  | .begin k, Q, E, s, w => s.tx = none ∧ ∀ w', Rely P i s w w' → wp k Q E (s.begun w') w'
  | .stmt tag want effect k, Q, E, s, w => ∀ w', Rely P i s w w' →
      wp (k none) Q E s.fault w' ∧
      (∀ x ∈ effect (s.view w'), ∀ r ∈ P.foot x,
        (s.exec tag (want (s.view w')) (effect (s.view w')) w').Holds r) ∧
      wp (k (some (s.view w'))) Q E
        (s.exec tag (want (s.view w')) (effect (s.view w')) w') w'
  | .mint k, Q, E, s, w => ∀ w', Rely P i s w w' → ∀ x, x ∉ w'.used →
      wp (k x) Q E (s.mint x) (w'.mint x)
  | .input k, Q, E, s, w => ∀ w', Rely P i s w w' → ∀ n, wp (k n) Q E s w'
  | .commit k, Q, E, s, w => ∃ t, s.tx = some t ∧ ∀ w', Rely P i s w w' →
      P.spec (commitOf i c s t w') w'.db ∧
      ((w'.push (commitOf i c s t w')).Ok P →
        wp (k true) Q E s.ended (w'.push (commitOf i c s t w'))) ∧
      wp (k false) Q E s.ended.fault w'
  | .rollback k, Q, E, s, w => ∀ w', Rely P i s w w' → wp k Q E s.ended w'

variable {P i c} {α β : Type}

section Rules

variable {Q : α → Local S → World S → Prop} {E : S.Err → Local S → World S → Prop}
variable {s : Local S} {w : World S}

@[simp] theorem wp_pure (a : α) : wp P i c (pure a) Q E s w ↔ Q a s w := Iff.rfl

theorem wp_bind (p : Prog S β) (f : β → Prog S α) :
    wp P i c (p >>= f) Q E s w ↔ wp P i c p (fun b => wp P i c (f b) Q E) E s w := by
  change wp P i c (p.bind f) Q E s w ↔ _
  induction p generalizing s w with
  | ret a => exact Iff.rfl
  | fail e => exact Iff.rfl
  | begin k ih => simp only [Prog.bind, wp, ih]
  | stmt tag want effect k ih => simp only [Prog.bind, wp, ih]
  | mint k ih => simp only [Prog.bind, wp, ih]
  | input k ih => simp only [Prog.bind, wp, ih]
  | commit k ih => simp only [Prog.bind, wp, ih]
  | rollback k ih => simp only [Prog.bind, wp, ih]

theorem wp_tryCatch (p : Prog S α) (h : S.Err → Prog S α) :
    wp P i c (tryCatch p h) Q E s w ↔ wp P i c p Q (fun e => wp P i c (h e) Q E) s w := by
  change wp P i c (p.handle h) Q E s w ↔ _
  induction p generalizing s w with
  | ret a => exact Iff.rfl
  | fail e => exact Iff.rfl
  | begin k ih => simp only [Prog.handle, wp, ih]
  | stmt tag want effect k ih => simp only [Prog.handle, wp, ih]
  | mint k ih => simp only [Prog.handle, wp, ih]
  | input k ih => simp only [Prog.handle, wp, ih]
  | commit k ih => simp only [Prog.handle, wp, ih]
  | rollback k ih => simp only [Prog.handle, wp, ih]

theorem wp_mono {Q' : α → Local S → World S → Prop} {E' : S.Err → Local S → World S → Prop}
    (p : Prog S α) (h : wp P i c p Q E s w) (hQ : ∀ a s w, Q a s w → Q' a s w)
    (hE : ∀ e s w, E e s w → E' e s w) : wp P i c p Q' E' s w := by
  induction p generalizing s w with
  | ret a => exact hQ _ _ _ h
  | fail e => exact hE _ _ _ h
  | begin k ih => exact ⟨h.1, fun w' hw => ih (h.2 w' hw)⟩
  | stmt tag want effect k ih =>
    intro w' hw
    obtain ⟨hf, hx, hk⟩ := h w' hw
    exact ⟨ih _ hf, hx, ih _ hk⟩
  | mint k ih => exact fun w' hw x hx => ih x (h w' hw x hx)
  | input k ih => exact fun w' hw n => ih n (h w' hw n)
  | commit k ih =>
    obtain ⟨t, ht, h⟩ := h
    refine ⟨t, ht, fun w' hw => ?_⟩
    obtain ⟨hc, hk, hf⟩ := h w' hw
    exact ⟨hc, fun ok => ih _ (hk ok), ih _ hf⟩
  | rollback k ih => exact fun w' hw => ih (h w' hw)

theorem wp_exec (tag : S.Tag) (want : View S.Db → Option S.Lock)
    (effect : View S.Db → List S.Write) {Q : View S.Db → Local S → World S → Prop} :
    wp P i c (Prog.exec tag want effect) Q E s w ↔ ∀ w', Rely P i s w w' →
      E S.fault s.fault w' ∧
      (∀ x ∈ effect (s.view w'), ∀ r ∈ P.foot x,
        (s.exec tag (want (s.view w')) (effect (s.view w')) w').Holds r) ∧
      Q (s.view w') (s.exec tag (want (s.view w')) (effect (s.view w')) w') w' := Iff.rfl

theorem wp_select (tag : S.Tag) {Q : View S.Db → Local S → World S → Prop} :
    wp P i c (Prog.select tag) Q E s w ↔ ∀ w', Rely P i s w w' →
      E S.fault s.fault w' ∧ Q (s.view w') (s.exec tag none [] w') w' := by
  simp [Prog.select, wp_exec]

theorem wp_fresh {Q : S.Id → Local S → World S → Prop} :
    wp P i c Prog.fresh Q E s w ↔ ∀ w', Rely P i s w w' → ∀ x, x ∉ w'.used →
      Q x (s.mint x) (w'.mint x) := Iff.rfl

theorem wp_outside {Q : ℕ → Local S → World S → Prop} :
    wp P i c Prog.outside Q E s w ↔ ∀ w', Rely P i s w w' → ∀ n, Q n s w' := Iff.rfl

theorem wp_transaction (body : Prog S α) :
    wp P i c (Prog.transaction body) Q E s w ↔ s.tx = none ∧ ∀ w₁, Rely P i s w w₁ →
      wp P i c body
        (fun a s' w' => ∃ t, s'.tx = some t ∧ ∀ w₂, Rely P i s' w' w₂ →
          P.spec (commitOf i c s' t w₂) w₂.db ∧
          ((w₂.push (commitOf i c s' t w₂)).Ok P →
            Q a s'.ended (w₂.push (commitOf i c s' t w₂))) ∧
          E S.fault s'.ended.fault w₂)
        (fun e s' w' => ∀ w₂, Rely P i s' w' w₂ → E e s'.ended w₂)
        (s.begun w₁) w₁ := by
  have hb := fun s w => wp_bind (P := P) (i := i) (c := c) (Q := Q) (E := E) (s := s) (w := w)
    (tryCatch body fun e => Prog.rollback (.fail e))
    (fun a => .commit fun done => if done then .ret a else .fail S.fault)
  constructor
  · rintro ⟨ht, h⟩
    exact ⟨ht, fun w₁ h₁ => (wp_tryCatch _ _).mp ((hb _ _).mp (h w₁ h₁))⟩
  · rintro ⟨ht, h⟩
    exact ⟨ht, fun w₁ h₁ => (hb _ _).mpr ((wp_tryCatch _ _).mpr (h w₁ h₁))⟩

theorem wp_and {spec : Commit S → S.Db → Prop} (hs : ∀ c d, P.spec c d → spec c d)
    {Q' : α → Local S → World S → Prop} {E' : S.Err → Local S → World S → Prop} (p : Prog S α)
    (h : wp P i c p Q E s w) (h' : wp (P.withSpec spec) i c p Q' E' s w) :
    wp P i c p (fun a s w => Q a s w ∧ Q' a s w) (fun e s w => E e s w ∧ E' e s w) s w := by
  induction p generalizing s w with
  | ret a => exact ⟨h, h'⟩
  | fail e => exact ⟨h, h'⟩
  | begin k ih => exact ⟨h.1, fun w' hw => ih (h.2 w' hw) (h'.2 w' (hw.withSpec hs))⟩
  | stmt tag want effect k ih =>
    intro w' hw
    obtain ⟨hf, hx, hk⟩ := h w' hw
    obtain ⟨hf', -, hk'⟩ := h' w' (hw.withSpec hs)
    exact ⟨ih _ hf hf', hx, ih _ hk hk'⟩
  | mint k ih => exact fun w' hw x hx => ih x (h w' hw x hx) (h' w' (hw.withSpec hs) x hx)
  | input k ih => exact fun w' hw n => ih n (h w' hw n) (h' w' (hw.withSpec hs) n)
  | commit k ih =>
    obtain ⟨t, ht, h⟩ := h
    obtain ⟨t', ht', h'⟩ := h'
    cases ht.symm.trans ht'
    refine ⟨t, ht, fun w' hw => ?_⟩
    obtain ⟨hc, hk, hf⟩ := h w' hw
    obtain ⟨-, hk', hf'⟩ := h' w' (hw.withSpec hs)
    exact ⟨hc, fun ok => ih _ (hk ok) (hk' (ok.withSpec hs)), ih _ hf hf'⟩
  | rollback k ih => exact fun w' hw => ih (h w' hw) (h' w' (hw.withSpec hs))

end Rules

end JitoGame.Transactions
