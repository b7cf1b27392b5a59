import JitoGame.Transactions.Wp

namespace JitoGame.Transactions

variable {S : Schema} {P : Protocol S} {i : ℕ} {c : S.Call} {α : Type}
variable {s s' s'' : Local S} {w w' w'' : World S}

def World.read (w : World S) (tag : S.Tag) : Mark S := ⟨tag, none, w.clock, w.clock, w.log.length, w.db⟩

structure Local.In (s : Local S) (start : ℕ) (ws : List S.Write) (held : List (Resource S)) : Prop where
  tx : ∃ locks, s.tx = some ⟨start, locks, ws⟩
  held : ∀ r ∈ held, s.Holds r

namespace Local.In

variable {start : ℕ} {ws : List S.Write} {held held' : List (Resource S)}

theorem begun (s : Local S) (w : World S) : (s.begun w).In w.clock [] [] :=
  ⟨⟨[], rfl⟩, fun _ hr => by cases hr⟩

theorem view_eq (h : s.In start ws held) (w : World S) : s.view w = ⟨applyAll ws w.db, start⟩ := by
  obtain ⟨locks, ht⟩ := h.tx
  simp [Local.view, ht]

theorem fault (h : s.In start ws held) : s.fault.In start ws held := ⟨h.tx, h.held⟩

theorem weaken (h : s.In start ws held) (hs : held' ⊆ held) : s.In start ws held' :=
  ⟨h.tx, fun r hr => h.held r (hs hr)⟩

theorem mint (h : s.In start ws held) (x : S.Id) : (s.mint x).In start ws (.id x :: held) := by
  refine ⟨h.tx, fun r hr => ?_⟩
  rcases List.mem_cons.mp hr with rfl | hr
  · exact List.mem_cons_self
  · have hold := h.held r hr
    cases r with
    | row l => exact hold
    | id y => exact List.mem_cons_of_mem _ hold

theorem exec (h : s.In start ws held) (tag : S.Tag) (lock : Option S.Lock) (ws' : List S.Write)
    (w : World S) :
    (s.exec tag lock ws' w).In start (ws ++ ws') (lock.toList.map .row ++ held) := by
  obtain ⟨locks, ht⟩ := h.tx
  refine ⟨⟨lock.toList ++ locks, by simp [Local.exec, ht]⟩, fun r hr => ?_⟩
  rcases List.mem_append.mp hr with hr | hr
  · obtain ⟨l, hl, rfl⟩ := List.mem_map.mp hr
    exact ⟨⟨start, lock.toList ++ locks, ws ++ ws'⟩, by simp [Local.exec, ht],
      List.mem_append_left _ hl⟩
  · have hold := h.held r hr
    cases r with
    | id y => exact hold
    | row l =>
      obtain ⟨t, ht', hl⟩ := hold
      cases ht.symm.trans ht'
      exact ⟨⟨start, lock.toList ++ locks, ws ++ ws'⟩, by simp [Local.exec, ht],
        List.mem_append_right _ hl⟩

end Local.In

structure Along (P : Protocol S) (i : ℕ) (s : Local S) (w : World S) (s' : Local S) (w' : World S) :
    Prop where
  rely : Rely P i s w w'
  holds : ∀ r, s.Holds r → s'.Holds r
  trace : s.trace <:+ s'.trace

namespace Along

theorem refl (h : w.Ok P) : Along P i s w s w := ⟨.refl h, fun _ hr => hr, List.suffix_refl _⟩

theorem trans (h : Along P i s w s' w') (h' : Along P i s' w' s'' w'') : Along P i s w s'' w'' :=
  ⟨h.rely.trans (h'.rely.weaken h.holds), fun r hr => h'.holds r (h.holds r hr), h.trace.trans h'.trace⟩

theorem rely' (h : Along P i s w s' w') (h' : Rely P i s' w' w'') : Along P i s w s' w'' :=
  h.trans ⟨h', fun _ hr => hr, List.suffix_refl _⟩

theorem ended (h : Along P i s w s' w') (hs : s.tx = none) : Along P i s w s'.ended w' := by
  refine ⟨h.rely, fun r hr => ?_, h.trace⟩
  cases r with
  | id x => exact h.holds _ hr
  | row l =>
    obtain ⟨t, ht, -⟩ := hr
    simp [hs] at ht

theorem fault (h : Along P i s w s' w') : Along P i s w s'.fault w' := ⟨h.rely, h.holds, h.trace⟩

theorem own (h : Along P i s w s' w') : own i w'.log = own i w.log := h.rely.own

end Along

section Rules

variable {Q : α → Local S → World S → Prop} {E : S.Err → Local S → World S → Prop}
variable {start : ℕ} {ws : List S.Write} {held : List (Resource S)}

theorem Local.In.wp_exec (h : s.In start ws held) {tag : S.Tag} {want : View S.Db → Option S.Lock}
    {effect : View S.Db → List S.Write} {Q : View S.Db → Local S → World S → Prop}
    (hE : ∀ w', Along P i s w s.fault w' → E S.fault s.fault w')
    (hfoot : ∀ w', Rely P i s w w' → ∀ x ∈ effect ⟨applyAll ws w'.db, start⟩, ∀ r ∈ P.foot x,
      r ∈ (want ⟨applyAll ws w'.db, start⟩).toList.map .row ++ held)
    (hQ : ∀ s' w' v, v = ⟨applyAll ws w'.db, start⟩ →
      s'.In start (ws ++ effect v) ((want v).toList.map .row ++ held) → Along P i s w s' w' →
      s'.trace = ⟨tag, want v, start, w'.clock, w'.log.length, w'.db⟩ :: s.trace → Q v s' w') :
    wp P i c (Prog.exec tag want effect) Q E s w := by
  rw [Transactions.wp_exec]
  intro w' hw
  have hin := h.exec tag (want (s.view w')) (effect (s.view w')) w'
  have hv := h.view_eq w'
  rw [hv] at hin ⊢
  have holds (r) (hr : s.Holds r) :
      (s.exec tag (want ⟨applyAll ws w'.db, start⟩) (effect ⟨applyAll ws w'.db, start⟩) w').Holds r := by
    have hr' : s.In start ws [r] := ⟨h.tx, fun r' hr' => by simp_all⟩
    exact (hr'.exec tag _ _ w').held r (by simp)
  refine ⟨hE w' ⟨hw, fun _ hr => hr, List.suffix_refl _⟩, fun x hx r hr => ?_, hQ _ w' _ rfl hin ?_ ?_⟩
  · exact hin.held r (hfoot w' hw x hx r hr)
  · exact ⟨hw, holds, List.suffix_cons _ _⟩
  · simp [Local.exec, Local.mark, hv]

theorem wp_fresh_known {Q : S.Id → Local S → World S → Prop}
    (hQ : ∀ x w', ¬ P.known w'.db x → Along P i s w (s.mint x) w' → Q x (s.mint x) w') :
    wp P i c Prog.fresh Q E s w := by
  rw [Transactions.wp_fresh]
  intro w' hw x hx
  refine hQ x _ (fun hk => hx (hw.ok.known x hk)) ⟨hw.trans ?_, fun r hr => ?_, List.suffix_refl _⟩
  · exact .mint hw.ok x
  · cases r with
    | row l => exact hr
    | id y => exact List.mem_cons_of_mem _ hr

theorem wp_outside_along {Q : ℕ → Local S → World S → Prop}
    (hQ : ∀ n w', Along P i s w s w' → Q n s w') : wp P i c Prog.outside Q E s w := by
  rw [wp_outside]
  exact fun w' hw n => hQ n w' ⟨hw, fun _ hr => hr, List.suffix_refl _⟩

theorem wp_read (h : s.tx = none) {tag : S.Tag} {Q : View S.Db → Local S → World S → Prop}
    (hE : ∀ w', Along P i s w s.fault w' → E S.fault s.fault w')
    (hQ : ∀ s' w', s'.tx = none → Along P i s w s' w' → s'.trace = w'.read tag :: s.trace →
      Q ⟨w'.db, w'.clock⟩ s' w') :
    wp P i c (Prog.select tag) Q E s w := by
  rw [wp_select]
  intro w' hw
  have hv : s.view w' = ⟨w'.db, w'.clock⟩ := by simp [Local.view, h]
  refine ⟨hE w' ⟨hw, fun _ hr => hr, List.suffix_refl _⟩, ?_⟩
  rw [hv]
  refine hQ _ w' (by simp [Local.exec, h]) ⟨hw, fun r hr => ?_, List.suffix_cons _ _⟩ ?_
  · cases r with
    | id x => exact hr
    | row l =>
      obtain ⟨t, ht, -⟩ := hr
      simp [h] at ht
  · simp [Local.exec, Local.mark, World.read, hv]

theorem wp_select_out (h : s.tx = none) {tag : S.Tag} {Q : View S.Db → Local S → World S → Prop}
    (hE : ∀ w', Along P i s w s.fault w' → E S.fault s.fault w')
    (hQ : ∀ s' w', s'.tx = none → Along P i s w s' w' → Q ⟨w'.db, w'.clock⟩ s' w') :
    wp P i c (Prog.select tag) Q E s w :=
  wp_read h hE fun s' w' htx hal _ => hQ s' w' htx hal

theorem wp_transaction_out (h : s.tx = none) {body : Prog S α}
    (hbody : ∀ s₁ w₁, s₁.In w₁.clock [] [] → Along P i s w s₁ w₁ → wp P i c body
      (fun a s' w' => ∃ ws held, s'.In w₁.clock ws held ∧ Along P i s w s' w' ∧
        ∀ w₂, Rely P i s' w' w₂ → P.spec ⟨i, c, w₁.clock, w₂.clock, ws, s'.trace⟩ w₂.db ∧
          (own i w₂.log = own i w.log →
            Q a s'.ended (w₂.push ⟨i, c, w₁.clock, w₂.clock, ws, s'.trace⟩)))
      (fun e s' w' => ∀ w₂, Rely P i s' w' w₂ → E e s'.ended w₂) s₁ w₁)
    (hE : ∀ s' w', s'.tx = none → s'.faulted = true → Along P i s w s' w' → E S.fault s' w') :
    wp P i c (Prog.transaction body) Q E s w := by
  rw [wp_transaction]
  refine ⟨h, fun w₁ hw₁ => ?_⟩
  have hbegun : Along P i s w (s.begun w₁) w₁ := by
    refine ⟨hw₁, fun r hr => ?_, List.suffix_refl _⟩
    cases r with
    | id x => exact hr
    | row l =>
      obtain ⟨t, ht, -⟩ := hr
      simp [h] at ht
  apply wp_mono body (hbody _ w₁ (.begun s w₁) hbegun)
  · rintro a s' w' ⟨ws, held, hin, hal, hc⟩
    obtain ⟨locks, ht⟩ := hin.tx
    refine ⟨_, ht, fun w₂ hw₂ => ?_⟩
    obtain ⟨hspec, hQ⟩ := hc w₂ hw₂
    refine ⟨hspec, fun _ => hQ (hw₂.own.trans hal.own), ?_⟩
    exact hE _ w₂ rfl rfl ((hal.rely' hw₂).ended h).fault
  · exact fun _ _ _ he => he

end Rules

end JitoGame.Transactions
