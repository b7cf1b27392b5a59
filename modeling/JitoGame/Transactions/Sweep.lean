import JitoGame.Transactions.Sequential

namespace JitoGame.Transactions

variable {S : Schema} {ι : Type}

namespace Prog

def each (tag : S.Tag) (lock : ι → S.Lock) (effect : ι → View S.Db → List S.Write) :
    List ι → Prog S Unit
  | [] => ret ()
  | x :: xs => (exec tag (fun _ => some (lock x)) (effect x)).bind fun _ => each tag lock effect xs

/-- An `UPDATE` of many rows under `READ COMMITTED`: its candidates are the rows of the snapshot it
starts with, and each is waited for and looked at again. -/
def updateMany (snapshot tag : S.Tag) (candidates : S.Db → List ι) (lock : ι → S.Lock)
    (effect : ι → View S.Db → List S.Write) : Prog S Unit :=
  (select snapshot).bind fun v => each tag lock effect (candidates v.db)

end Prog

def Visit (P : Protocol S) (tag : S.Tag) (lock : ι → S.Lock) (effect : ι → View S.Db → List S.Write)
    (start : ℕ) (ws : List S.Write) (trace : List (Mark S)) (d₀ d : S.Db) (x : ι) : Prop :=
  ∃ m ∈ trace, m.tag = tag ∧ m.lock = some (lock x) ∧ P.le d₀ m.db ∧
    P.agree (.row (lock x)) m.db d ∧
    ∃ before, before <+: ws ∧ effect x ⟨applyAll before m.db, start⟩ ⊆ ws

variable {P : Protocol S} {i : ℕ} {c : S.Call} {E : S.Err → Local S → World S → Prop}
variable {Q : Unit → Local S → World S → Prop} {s : Local S} {w : World S}
variable {tag snapshot : S.Tag} {lock : ι → S.Lock} {effect : ι → View S.Db → List S.Write}
variable {start : ℕ} {ws : List S.Write} {held : List (Resource S)}

theorem Visit.later {ws ws' : List S.Write} {trace trace' : List (Mark S)} {d₀ d₁ d d' : S.Db} {x : ι}
    (h : Visit P tag lock effect start ws trace d₁ d x) (hle : P.le d₀ d₁) (hws : ws <+: ws')
    (htrace : trace ⊆ trace') (hd : P.agree (.row (lock x)) d d') :
    Visit P tag lock effect start ws' trace' d₀ d' x := by
  obtain ⟨m, hm, htag, hlock, hle', hagree, before, hbefore, heffect⟩ := h
  exact ⟨m, htrace hm, htag, hlock, P.le_trans hle hle', P.agree_trans hagree hd, before,
    hbefore.trans hws, fun y hy => hws.subset (heffect hy)⟩

theorem wp_each (h : s.In start ws held) (xs : List ι) (hw : w.Ok P)
    (hE : ∀ s' w', Along P i s w s' w' → E S.fault s' w')
    (hfoot : ∀ x v, ∀ y ∈ effect x v, ∀ r ∈ P.foot y, r = .row (lock x))
    (hQ : ∀ s' w' ws', s'.In start (ws ++ ws') (xs.map (fun x => .row (lock x)) ++ held) →
      Along P i s w s' w' →
      (∀ x ∈ xs, Visit P tag lock effect start (ws ++ ws') s'.trace w.db w'.db x) →
      (∀ y ∈ ws', ∃ x ∈ xs, ∃ v, y ∈ effect x v) → Q () s' w') :
    wp P i c (.each tag lock effect xs) Q E s w := by
  induction xs generalizing s w ws held with
  | nil =>
    have hin : s.In start (ws ++ []) held := by simpa using h
    exact hQ s w [] hin (.refl hw) (by simp) (by simp)
  | cons x xs ih =>
    change wp P i c (Prog.exec tag _ _ >>= fun _ => Prog.each tag lock effect xs) Q E s w
    rw [wp_bind]
    refine h.wp_exec (fun w' hal => hE _ w' hal) (fun w' _ y hy r hr => ?_)
      fun s₁ w₁ v hv hin₁ hal₁ htrace => ?_
    · rw [hfoot x _ y hy r hr]
      exact List.mem_cons_self
    · refine ih hin₁ hal₁.rely.ok (fun s' w' hal => hE s' w' (hal₁.trans hal))
        fun s' w' ws' hin' hal' hvisit hwrites => ?_
      have hheld : s₁.Holds (.row (lock x)) := hin₁.held _ List.mem_cons_self
      have hfirst : Visit P tag lock effect start (ws ++ effect x v) s₁.trace w₁.db w₁.db x := by
        refine ⟨_, htrace ▸ List.mem_cons_self, rfl, rfl, P.le_refl _, P.agree_refl _ _, ws, ?_, ?_⟩
        · exact List.prefix_append _ _
        · subst hv
          exact List.subset_append_right _ _
      refine hQ s' w' (effect x v ++ ws') ?_ (hal₁.trans hal') (fun y hy => ?_) (fun y hy => ?_)
      · rw [List.append_assoc] at hin'
        apply hin'.weaken
        intro r hr
        simp only [List.map_cons, List.cons_append, List.mem_cons, List.mem_append,
          Option.toList_some, List.map_nil, List.nil_append] at hr ⊢
        rcases hr with rfl | hr | hr
        · exact .inr (.inl rfl)
        · exact .inl hr
        · exact .inr (.inr hr)
      · rw [← List.append_assoc]
        rcases List.mem_cons.mp hy with rfl | hy
        · exact hfirst.later hal₁.rely.le (List.prefix_append _ _) hal'.trace.subset
            (hal'.rely.agree _ hheld)
        · exact (hvisit y hy).later hal₁.rely.le (List.prefix_refl _) (List.Subset.refl _)
            (P.agree_refl _ _)
      · rcases List.mem_append.mp hy with hy | hy
        · exact ⟨x, List.mem_cons_self, v, hy⟩
        · obtain ⟨z, hz, hv⟩ := hwrites y hy
          exact ⟨z, List.mem_cons_of_mem _ hz, hv⟩

theorem wp_updateMany (h : s.In start ws held) {candidates : S.Db → List ι}
    (hE : ∀ s' w', Along P i s w s' w' → E S.fault s' w')
    (hfoot : ∀ x v, ∀ y ∈ effect x v, ∀ r ∈ P.foot y, r = .row (lock x))
    (hQ : ∀ m s' w' ws', m ∈ s'.trace → m.tag = snapshot →
      s'.In start (ws ++ ws')
        ((candidates (applyAll ws m.db)).map (fun x => .row (lock x)) ++ held) →
      Along P i s w s' w' →
      (∀ x ∈ candidates (applyAll ws m.db),
        Visit P tag lock effect start (ws ++ ws') s'.trace m.db w'.db x) →
      (∀ y ∈ ws', ∃ x ∈ candidates (applyAll ws m.db), ∃ v, y ∈ effect x v) → Q () s' w') :
    wp P i c (.updateMany snapshot tag candidates lock effect) Q E s w := by
  change wp P i c (Prog.select snapshot >>= fun v => Prog.each tag lock effect (candidates v.db)) Q E s w
  rw [wp_bind]
  refine h.wp_exec (fun w' hal => hE _ w' hal) (fun _ _ _ hx => by cases hx)
    fun s₁ w₁ v hv hin₁ hal₁ htrace => ?_
  subst hv
  have hin : s₁.In start ws held := by simpa using hin₁
  refine wp_each hin _ hal₁.rely.ok (fun s' w' hal => hE s' w' (hal₁.trans hal)) hfoot
    fun s' w' ws' hin' hal' hvisit hwrites => ?_
  exact hQ _ s' w' ws' (hal'.trace.subset (htrace ▸ List.mem_cons_self)) rfl hin'
    (hal₁.trans hal') hvisit hwrites

/-! An `UPDATE` while no one else commits. -/

section Alone

variable {known : S.Db → S.Id → Prop} {base : S.Db} {marks : List (Mark S)}

def buffered (effect : ι → View S.Db → List S.Write) (base : S.Db) (start : ℕ) :
    List ι → List S.Write → List S.Write
  | [], ws => ws
  | x :: xs, ws => buffered effect base start xs (ws ++ effect x ⟨applyAll ws base, start⟩)

theorem Still.wp_each (hw : Still known base i w) (h : s.Running start ws marks) (xs : List ι)
    (hE : ∀ s' w', s'.faulted = true → Still known base i w' → E S.fault s' w')
    (hQ : ∀ s' w', s'.Running start (buffered effect base start xs ws) marks →
      Still known base i w' → Q () s' w') :
    wp (.sole known base i) i c (.each tag lock effect xs) Q E s w := by
  induction xs generalizing s w ws with
  | nil => exact hQ s w h hw
  | cons x xs ih =>
    change wp _ i c (Prog.exec tag _ _ >>= fun _ => Prog.each tag lock effect xs) Q E s w
    rw [wp_bind]
    apply hw.wp_exec h hE
    intro m s' w' _ _ hrun hw'
    exact ih hw' hrun.older hQ

theorem Still.wp_updateMany (hw : Still known base i w) (h : s.Running start ws marks)
    {candidates : S.Db → List ι}
    (hE : ∀ s' w', s'.faulted = true → Still known base i w' → E S.fault s' w')
    (hQ : ∀ s' w', s'.Running start
      (buffered effect base start (candidates (applyAll ws base)) ws) marks →
        Still known base i w' → Q () s' w') :
    wp (.sole known base i) i c (.updateMany snapshot tag candidates lock effect) Q E s w := by
  change wp _ i c (Prog.select snapshot >>= fun v => Prog.each tag lock effect (candidates v.db)) Q E
    s w
  rw [wp_bind]
  apply hw.wp_exec h hE
  intro m s' w' _ _ hrun hw'
  rw [List.append_nil] at hrun
  exact hw'.wp_each hrun.older _ hE hQ

end Alone

end JitoGame.Transactions
