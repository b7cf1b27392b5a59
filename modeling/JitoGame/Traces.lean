import Mathlib.Data.List.Basic

namespace JitoGame.Traces

variable {σ ε : Type*}

def run (step : σ → ε → Option σ) : σ → List ε → Option σ
  | s, [] => some s
  | s, e :: es => (step s e).bind fun m => run step m es

variable {step : σ → ε → Option σ} {s t : σ} {e : ε} {es es' : List ε}

theorem run_cons : run step s (e :: es) = some t ↔ ∃ m, step s e = some m ∧ run step m es = some t :=
  Option.bind_eq_some_iff

theorem run_append : run step s (es ++ es') = some t ↔
    ∃ m, run step s es = some m ∧ run step m es' = some t := by
  induction es generalizing s with
  | nil => simp [run]
  | cons e es ih =>
    simp only [List.cons_append, run_cons, ih]
    constructor
    · rintro ⟨m, hm, n, hn, ht⟩
      exact ⟨n, ⟨m, hm, hn⟩, ht⟩
    · rintro ⟨n, ⟨m, hm, hn⟩, ht⟩
      exact ⟨m, hm, n, hn, ht⟩

theorem run_snoc : run step s (es ++ [e]) = some t ↔
    ∃ m, run step s es = some m ∧ step m e = some t := by
  simp [run_append, run]

def Preserves (step : σ → ε → Option σ) (I : σ → Prop) : Prop :=
  ∀ s e s', step s e = some s' → I s → I s'

theorem Preserves.run {I : σ → Prop} (h : Preserves step I) (hr : run step s es = some t)
    (hs : I s) : I t := by
  induction es generalizing s with
  | nil => cases hr; exact hs
  | cons e es ih =>
    obtain ⟨m, hm, hr⟩ := run_cons.mp hr
    exact ih hr (h s e m hm hs)

def Visits (step : σ → ε → Option σ) (s : σ) (es : List ε) (t : σ) : Prop :=
  ∃ pre, pre <+: es ∧ run step s pre = some t

theorem Visits.start : Visits step s es s := ⟨[], List.nil_prefix, rfl⟩

theorem Visits.cons {m : σ} (hm : step s e = some m) (h : Visits step m es t) :
    Visits step s (e :: es) t := by
  obtain ⟨pre, hpre, hr⟩ := h
  exact ⟨e :: pre, List.cons_prefix_cons.mpr ⟨rfl, hpre⟩, run_cons.mpr ⟨m, hm, hr⟩⟩

theorem visits_cons {m : σ} (hm : step s e = some m) :
    Visits step s (e :: es) t ↔ t = s ∨ Visits step m es t := by
  constructor
  · rintro ⟨pre, hpre, hr⟩
    rcases List.prefix_cons_iff.mp hpre with rfl | ⟨pre', rfl, hpre'⟩
    · cases hr
      exact .inl rfl
    · obtain ⟨m', hm', hr⟩ := run_cons.mp hr
      cases hm.symm.trans hm'
      exact .inr ⟨pre', hpre', hr⟩
  · rintro (rfl | h)
    · exact .start
    · exact h.cons hm

def Throughout (step : σ → ε → Option σ) (C : σ → ε → Prop) : σ → List ε → Prop
  | _, [] => True
  | s, e :: es => C s e ∧ ∀ m, step s e = some m → Throughout step C m es

theorem throughout_cons {C : σ → ε → Prop} {m : σ} (hm : step s e = some m) :
    Throughout step C s (e :: es) ↔ C s e ∧ Throughout step C m es := by
  refine and_congr_right fun _ => ⟨fun h => h m hm, fun h m' hm' => ?_⟩
  cases hm.symm.trans hm'
  exact h

theorem Throughout.of_forall {C : σ → ε → Prop} (h : ∀ e ∈ es, ∀ s, C s e) :
    Throughout step C s es := by
  induction es generalizing s with
  | nil => trivial
  | cons e es ih => exact ⟨h e List.mem_cons_self s, fun m _ => ih fun x hx => h x (.tail e hx)⟩

theorem throughout_append {C : σ → ε → Prop} (hr : run step s es = some t) :
    Throughout step C s (es ++ es') ↔ Throughout step C s es ∧ Throughout step C t es' := by
  induction es generalizing s with
  | nil =>
    cases hr
    exact ⟨fun h => ⟨trivial, h⟩, And.right⟩
  | cons e es ih =>
    obtain ⟨m, hm, hr⟩ := run_cons.mp hr
    rw [List.cons_append, throughout_cons hm, throughout_cons hm, ih hr, and_assoc]

theorem Throughout.run {I : σ → Prop} {C : σ → ε → Prop}
    (h : ∀ s e s', step s e = some s' → C s e → I s → I s') (hm : Throughout step C s es)
    (hr : run step s es = some t) (hs : I s) : I t := by
  induction es generalizing s with
  | nil => cases hr; exact hs
  | cons e es ih =>
    obtain ⟨m, hstep, hr⟩ := run_cons.mp hr
    obtain ⟨hc, hm⟩ := (throughout_cons hstep).mp hm
    exact ih hm hr (h s e m hstep hc hs)

theorem always_iff {J P : σ → Prop} {C : σ → ε → Prop} (hJ : Preserves step J)
    (hstep : ∀ s e s', J s → P s → step s e = some s' → (P s' ↔ C s e)) (hs : J s) (hp : P s)
    (hr : run step s es = some t) : (∀ u, Visits step s es u → P u) ↔ Throughout step C s es := by
  induction es generalizing s with
  | nil =>
    refine ⟨fun _ => trivial, ?_⟩
    rintro - u ⟨pre, hpre, hu⟩
    cases List.prefix_nil.mp hpre
    cases hu
    exact hp
  | cons e es ih =>
    obtain ⟨m, hm, hr⟩ := run_cons.mp hr
    rw [throughout_cons hm, ← hstep s e m hs hp hm]
    constructor
    · intro h
      have hpm : P m := h m (Visits.start.cons hm)
      exact ⟨hpm, (ih (hJ s e m hm hs) hpm hr).mp fun u hu => h u (hu.cons hm)⟩
    · rintro ⟨hpm, h⟩ u hu
      rcases (visits_cons hm).mp hu with rfl | hu
      · exact hp
      · exact (ih (hJ s e m hm hs) hpm hr).mpr h u hu

theorem finally_iff {J P : σ → Prop} {C : σ → ε → Prop} (hJ : Preserves step J)
    (hstep : ∀ s e s', J s → P s → step s e = some s' → (P s' ↔ C s e))
    (hlost : ∀ s e s', J s → ¬ P s → step s e = some s' → ¬ P s') (hs : J s) (hp : P s)
    (hr : run step s es = some t) : P t ↔ Throughout step C s es := by
  induction es generalizing s with
  | nil =>
    cases hr
    exact iff_of_true hp trivial
  | cons e es ih =>
    obtain ⟨m, hm, hr⟩ := run_cons.mp hr
    have hjm := hJ s e m hm hs
    rw [throughout_cons hm, ← hstep s e m hs hp hm]
    by_cases hpm : P m
    · rw [ih hjm hpm hr]
      exact (and_iff_right hpm).symm
    · have hkeeps : Preserves step fun u => J u ∧ ¬ P u :=
        fun u e' u' h hu => ⟨hJ u e' u' h hu.1, hlost u e' u' hu.1 hu.2 h⟩
      exact iff_of_false (hkeeps.run hr ⟨hjm, hpm⟩).2 fun h => hpm h.1

theorem visits_iff {I A B : σ → Prop}
    (hstep : ∀ s e s', step s e = some s' → I s → A s → B s → I s') (hAB : ∀ s, I s → (A s ↔ B s))
    (hs : I s) (hr : run step s es = some t) :
    (∀ u, Visits step s es u → A u) ↔ ∀ u, Visits step s es u → B u := by
  induction es generalizing s with
  | nil =>
    have hone (u : σ) : Visits step s [] u ↔ u = s := by
      constructor
      · rintro ⟨pre, hpre, hu⟩
        cases List.prefix_nil.mp hpre
        cases hu
        rfl
      · rintro rfl
        exact .start
    simp only [hone, forall_eq]
    exact hAB s hs
  | cons e es ih =>
    obtain ⟨m, hm, hr⟩ := run_cons.mp hr
    simp only [visits_cons hm, forall_eq_or_imp, ← hAB s hs]
    apply and_congr_right
    intro ha
    exact ih (hstep s e m hm hs ha ((hAB s hs).mp ha)) hr

theorem exists_between {J Q : σ → Prop} {B : σ → ε → Prop} (hJ : Preserves step J)
    (hkeep : ∀ s e s', J s → step s e = some s' → Q s → ¬ B s e → Q s') (hs : J s)
    (hr : run step s es = some t) (hq : Q s) (ht : ¬ Q t) :
    ∃ pre e post u, es = pre ++ e :: post ∧ run step s pre = some u ∧ B u e := by
  induction es generalizing s with
  | nil =>
    cases hr
    exact absurd hq ht
  | cons e es ih =>
    obtain ⟨m, hm, hr⟩ := run_cons.mp hr
    by_cases hb : B s e
    · exact ⟨[], e, es, s, rfl, rfl, hb⟩
    · obtain ⟨pre, e', post, u, rfl, hu, hb'⟩ :=
        ih (hJ s e m hm hs) hr (hkeep s e m hs hm hq hb)
      exact ⟨e :: pre, e', post, u, rfl, run_cons.mpr ⟨m, hm, hu⟩, hb'⟩

def outputs {ω : Type*} (step : σ → ε → Option σ) (out : σ → ε → Option ω) : σ → List ε → List ω
  | _, [] => []
  | s, e :: es => (out s e).toList ++ ((step s e).map fun m => outputs step out m es).getD []

theorem run_le {f : σ → ℕ} {w : ε → ℕ} {b : ℕ} (hstep : ∀ s e s', step s e = some s' → f s' ≤ f s + w e)
    (hr : run step s es = some t) (hs : f s ≤ b) : f t ≤ es.foldl (fun n e => n + w e) b := by
  induction es generalizing s b with
  | nil =>
    cases hr
    exact hs
  | cons e es ih =>
    obtain ⟨m, hm, hr⟩ := run_cons.mp hr
    have hhead : f m ≤ b + w e := Nat.le_trans (hstep s e m hm) (Nat.add_le_add_right hs _)
    exact ih hr hhead

section Outputs

variable {ω β : Type*} {out : σ → ε → Option ω} {J : σ → Prop}

end Outputs

end JitoGame.Traces
