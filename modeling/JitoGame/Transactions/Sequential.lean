import JitoGame.Transactions.Run
import JitoGame.Transactions.Statements

namespace JitoGame.Transactions

variable {S : Schema}

def Protocol.sole (known : S.Db → S.Id → Prop) (base : S.Db) (i : ℕ) : Protocol S where
  base := base
  foot _ := []
  agree _ _ _ := True
  le _ _ := True
  known _ := known base
  spec c _ := c.proc = i
  agree_refl _ _ := trivial
  agree_trans _ _ := trivial
  frame _ _ := trivial
  le_refl _ := trivial
  le_trans _ _ := trivial
  le_apply _ _ := trivial
  known_apply h := .inl h

variable {known : S.Db → S.Id → Prop} {base : S.Db} {i : ℕ} {c : S.Call} {α : Type}
variable {s : Local S} {w w' : World S}

theorem own_eq_self {log : List (Commit S)} (h : ∀ c ∈ log, c.proc = i) : own i log = log :=
  List.filter_eq_self.mpr fun c hc => by simpa using h c hc

theorem Rely.log_eq (hr : Rely (.sole known base i) i s w w') : w'.log = w.log := by
  have hall (c : Commit S) (hc : c ∈ w'.log) : c.proc = i := by
    obtain ⟨_, _, hspec⟩ := hr.ok.chronicle.found hc
    exact hspec
  have hown := hr.own
  rw [own_eq_self hall, own_eq_self fun c hc => hall c (hr.log.subset hc)] at hown
  exact hown

structure Still (known : S.Db → S.Id → Prop) (base : S.Db) (i : ℕ) (w : World S) : Prop where
  ok : w.Ok (.sole known base i)
  log : w.log = []

namespace Still

theorem db_eq (h : Still known base i w) : w.db = base := by
  have hdb := h.ok.db_eq
  rw [h.log] at hdb
  exact hdb

theorem rely (h : Still known base i w) (hr : Rely (.sole known base i) i s w w') :
    Still known base i w' := ⟨hr.ok, hr.log_eq.trans h.log⟩

theorem mint (h : Still known base i w) (x : S.Id) : Still known base i (w.mint x) :=
  ⟨h.ok.mint x, h.log⟩

end Still

structure Local.Running (s : Local S) (start : ℕ) (ws : List S.Write) (marks : List (Mark S)) :
    Prop where
  tx : ∃ locks, s.tx = some ⟨start, locks, ws⟩
  clean : s.faulted = false
  trace : marks ⊆ s.trace

theorem Local.Running.mint {start : ℕ} {ws : List S.Write} {marks : List (Mark S)}
    (h : s.Running start ws marks) (x : S.Id) : (s.mint x).Running start ws marks :=
  ⟨h.tx, h.clean, h.trace⟩

theorem Local.Running.older {start : ℕ} {ws : List S.Write} {m : Mark S} {marks : List (Mark S)}
    (h : s.Running start ws (m :: marks)) : s.Running start ws marks :=
  ⟨h.tx, h.clean, fun _ hx => h.trace (List.mem_cons_of_mem m hx)⟩

section Rules

variable {Q : α → Local S → World S → Prop} {E : S.Err → Local S → World S → Prop}
variable {start : ℕ} {ws : List S.Write} {marks : List (Mark S)}

theorem Still.wp_read (hw : Still known base i w) (htx : s.tx = none) (hclean : s.faulted = false)
    {tag : S.Tag} {Q : View S.Db → Local S → World S → Prop}
    (hE : ∀ s' w', s'.faulted = true → Still known base i w' → E S.fault s' w')
    (hQ : ∀ now s' w', s'.tx = none → s'.faulted = false → Still known base i w' →
      Q ⟨base, now⟩ s' w') : wp (.sole known base i) i c (Prog.select tag) Q E s w := by
  rw [wp_select]
  intro w' hr
  have hw' := hw.rely hr
  have hview : s.view w' = ⟨base, w'.clock⟩ := by rw [Local.view, htx, hw'.db_eq]
  rw [hview]
  have htx' : (s.exec tag none [] w').tx = none := Option.map_eq_none_iff.mpr htx
  exact ⟨hE _ w' rfl hw', hQ _ _ w' htx' hclean hw'⟩

theorem Still.wp_exec (hw : Still known base i w) (h : s.Running start ws marks) {tag : S.Tag}
    {want : View S.Db → Option S.Lock} {effect : View S.Db → List S.Write}
    {Q : View S.Db → Local S → World S → Prop}
    (hE : ∀ s' w', s'.faulted = true → Still known base i w' → E S.fault s' w')
    (hQ : ∀ m s' w', m.tag = tag → m.now = start →
      s'.Running start (ws ++ effect ⟨applyAll ws base, start⟩) (m :: marks) →
      Still known base i w' → Q ⟨applyAll ws base, start⟩ s' w') :
    wp (.sole known base i) i c (Prog.exec tag want effect) Q E s w := by
  rw [Transactions.wp_exec]
  intro w' hr
  have hw' := hw.rely hr
  obtain ⟨locks, ht⟩ := h.tx
  have hview : s.view w' = ⟨applyAll ws base, start⟩ := by simp [Local.view, ht, hw'.db_eq]
  refine ⟨hE _ w' rfl hw', fun x _ r hr => (List.not_mem_nil hr).elim, ?_⟩
  rw [hview]
  refine hQ (s.mark tag (want ⟨applyAll ws base, start⟩) w') _ w' rfl ?_
    ⟨⟨(want ⟨applyAll ws base, start⟩).toList ++ locks, ?_⟩, h.clean, ?_⟩ hw'
  · rw [Local.mark, hview]
  · simp [Local.exec, ht]
  · exact List.cons_subset_cons _ h.trace

theorem Still.wp_insert_cases (hw : Still known base i w) (h : s.Running start ws marks) {tag : S.Tag}
    {lock : S.Lock} {taken : S.Db → Bool} {ws' : List S.Write} {duplicate : S.Err}
    {Q : Unit → Local S → World S → Prop}
    (hE : ∀ s' w', s'.faulted = true → Still known base i w' → E S.fault s' w')
    (hdup : ∀ s' w', taken (applyAll ws base) = true → s'.Running start ws marks →
      Still known base i w' → E duplicate s' w')
    (hQ : ∀ s' w', taken (applyAll ws base) = false → s'.Running start (ws ++ ws') marks →
      Still known base i w' → Q () s' w') :
    wp (.sole known base i) i c (.insert tag lock taken ws' duplicate) Q E s w := by
  rw [Prog.insert, wp_bind]
  apply hw.wp_exec h hE
  intro m s' w' _ _ hrun hw'
  rw [wp_require]
  constructor
  · intro hfree
    rw [hfree] at hrun
    exact hQ s' w' hfree hrun.older hw'
  · intro htaken
    rw [Bool.not_eq_false] at htaken
    rw [htaken] at hrun
    exact hdup s' w' htaken (by simpa using hrun.older) hw'

theorem Still.wp_insert (hw : Still known base i w) (h : s.Running start ws marks) {tag : S.Tag}
    {lock : S.Lock} {taken : S.Db → Bool} {ws' : List S.Write} {duplicate : S.Err}
    {Q : Unit → Local S → World S → Prop}
    (hE : ∀ s' w', s'.faulted = true → Still known base i w' → E S.fault s' w')
    (hfree : taken (applyAll ws base) = false)
    (hQ : ∀ s' w', s'.Running start (ws ++ ws') marks → Still known base i w' → Q () s' w') :
    wp (.sole known base i) i c (.insert tag lock taken ws' duplicate) Q E s w := by
  apply hw.wp_insert_cases h hE
  · intro s' w' htaken
    rw [hfree] at htaken
    cases htaken
  · exact fun s' w' _ => hQ s' w'

theorem Still.wp_fresh (hw : Still known base i w) {Q : S.Id → Local S → World S → Prop}
    (hQ : ∀ x w', ¬ known base x → Still known base i w' → Q x (s.mint x) w') :
    wp (.sole known base i) i c Prog.fresh Q E s w := by
  rw [Transactions.wp_fresh]
  intro w' hr x hx
  have hw' := hw.rely hr
  exact hQ x _ (fun hk => hx (hw'.ok.known x hk)) (hw'.mint x)

theorem Still.wp_outside (hw : Still known base i w) {Q : ℕ → Local S → World S → Prop}
    (hQ : ∀ n w', Still known base i w' → Q n s w') :
    wp (.sole known base i) i c Prog.outside Q E s w := by
  rw [Transactions.wp_outside]
  exact fun w' hr n => hQ n w' (hw.rely hr)

theorem Still.wp_transaction (hw : Still known base i w) (htx : s.tx = none)
    (hclean : s.faulted = false) {body : Prog S α}
    (hbody : ∀ start s₁ w₁, s₁.Running start [] [] → Still known base i w₁ →
      wp (.sole known base i) i c body
        (fun a s' w' => ∃ ws, s'.Running start ws [] ∧ Still known base i w' ∧
          ∀ w'', Still known base i w'' →
            Q a s'.ended (w''.push ⟨i, c, start, w''.clock, ws, s'.trace⟩))
        (fun e s' w' => Still known base i w' ∧ ∀ w'', Still known base i w'' → E e s'.ended w'')
        s₁ w₁)
    (hE : ∀ s' w', s'.tx = none → s'.faulted = true → Still known base i w' → E S.fault s' w') :
    wp (.sole known base i) i c (Prog.transaction body) Q E s w := by
  rw [Transactions.wp_transaction]
  refine ⟨htx, fun w₁ hr₁ => ?_⟩
  have hbegun : (s.begun w₁).Running w₁.clock [] [] := ⟨⟨[], rfl⟩, hclean, List.nil_subset _⟩
  apply wp_mono body (hbody _ _ w₁ hbegun (hw.rely hr₁))
  · rintro a s' w' ⟨ws, hrun, hw', hQ⟩
    obtain ⟨locks, ht⟩ := hrun.tx
    refine ⟨_, ht, fun w₂ hr₂ => ⟨rfl, fun _ => ?_, hE _ w₂ rfl rfl (hw'.rely hr₂)⟩⟩
    exact hQ w₂ (hw'.rely hr₂)
  · exact fun e s' w' he w₂ hr₂ => he.2 w₂ (he.1.rely hr₂)

end Rules

variable [DecidableEq S.Lock] [DecidableEq S.Id] {body : S.Call → Prog S S.Res} {P : Protocol S}
variable {done : Outcome S} {σ : State S}

def Serves (body : S.Call → Prog S S.Res) (known : S.Db → S.Id → Prop) (d : S.Db) (c : S.Call)
    (s : State S) : Prop :=
  ∃ used : List S.Id, (∀ x, known d x → x ∈ used) ∧ Reachable body (Policy.calls fun _ => False).ok
    ((initial d used).move 0 ⟨c, body c, .idle⟩ (initial d used).world (initial d used).owner) s

theorem Serves.invariant (h : Serves body known P.base c σ) (hk : ∀ x, P.known P.base x → known P.base x)
    (hsafe : ∀ w, w.Ok P → w.log = [] → Safe P done 0 ⟨c, body c, .idle⟩ w) : Invariant P done σ := by
  obtain ⟨used, hused, hreach⟩ := h
  have hstart : Invariant P done (initial P.base used) := .start rfl fun x hx => hused x (hk x hx)
  have hv : Verified P body (fun _ => False) done := fun _ _ _ hno => hno.elim
  exact (hstart.spawn rfl (hsafe _ hstart.ok rfl)).inv.reachable hv (fun _ _ _ hno => hno) hreach

section Alone

variable {d : S.Db} {X : Except S.Err S.Res → Local S → List (Commit S) → Prop}

theorem Serves.still (h : Serves body known d c σ)
    (hwp : ∀ w, Still known d 0 w → wp (.sole known d 0) 0 c (body c)
      (fun a s' w' => X (.ok a) s' w'.log) (fun e s' w' => X (.error e) s' w'.log) .idle w) :
    Invariant (.sole known d 0) (fun _ _ r s' w' => X r s' w'.log) σ :=
  h.invariant (P := .sole known d 0) (fun _ hx => hx) fun w hw hlog => hwp w ⟨hw, hlog⟩

theorem Serves.outcome (h : Serves body known d c σ)
    (hwp : ∀ w, Still known d 0 w → wp (.sole known d 0) 0 c (body c)
      (fun a s' w' => X (.ok a) s' w'.log) (fun e s' w' => X (.error e) s' w'.log) .idle w)
    {p : Proc S} (hp : σ.procs 0 = some p) {r : Except S.Err S.Res} (hr : p.prog.Ends r) :
    X r p.loc σ.world.log ∧ own 0 σ.world.log = σ.world.log := by
  have hinv := h.still hwp
  obtain ⟨w₀, hrely, hX⟩ := hinv.outcome hp hr
  refine ⟨hrely.log_eq ▸ hX, own_eq_self fun c hc => ?_⟩
  obtain ⟨_, _, hspec⟩ := hinv.ok.chronicle.found hc
  exact hspec

end Alone

end JitoGame.Transactions
