import JitoGame.Transactions.Sequential

namespace JitoGame.Transactions

variable {S : Schema} {α β : Type}

def Prog.feed (n : ℕ) : Prog S α → Prog S α
  | .ret a => .ret a
  | .fail e => .fail e
  | .begin k => .begin (k.feed n)
  | .stmt tag want effect k => .stmt tag want effect fun v => (k v).feed n
  | .mint k => .mint fun x => (k x).feed n
  | .input k => k n
  | .commit k => .commit fun b => (k b).feed n
  | .rollback k => .rollback (k.feed n)

def Prog.Closed (p : Prog S α) : Prop := ∀ n, p.feed n = p

theorem Prog.feed_bind (n : ℕ) (p : Prog S α) {f : α → Prog S β} (hf : ∀ a, (f a).Closed) :
    (p >>= f).feed n = p.feed n >>= f := by
  change (p.bind f).feed n = (p.feed n).bind f
  induction p with
  | ret a => exact hf a n
  | fail e => rfl
  | input k ih => rfl
  | begin k ih => exact congrArg Prog.begin ih
  | stmt tag want effect k ih => exact congrArg (Prog.stmt tag want effect) (funext ih)
  | mint k ih => exact congrArg Prog.mint (funext ih)
  | commit k ih => exact congrArg Prog.commit (funext ih)
  | rollback k ih => exact congrArg Prog.rollback ih

theorem Prog.feed_tryCatch (n : ℕ) (p : Prog S α) {h : S.Err → Prog S α} (hh : ∀ e, (h e).Closed) :
    (tryCatch p h).feed n = tryCatch (p.feed n) h := by
  change (p.handle h).feed n = (p.feed n).handle h
  induction p with
  | ret a => rfl
  | fail e => exact hh e n
  | input k ih => rfl
  | begin k ih => exact congrArg Prog.begin ih
  | stmt tag want effect k ih => exact congrArg (Prog.stmt tag want effect) (funext ih)
  | mint k ih => exact congrArg Prog.mint (funext ih)
  | commit k ih => exact congrArg Prog.commit (funext ih)
  | rollback k ih => exact congrArg Prog.rollback ih

theorem Prog.feed_transaction (n : ℕ) (p : Prog S α) :
    (Prog.transaction p).feed n = Prog.transaction (p.feed n) := by
  have hcommit (a : α) : (Prog.commit fun done => if done then .ret a else .fail S.fault : Prog S α).Closed := by
    intro n
    refine congrArg Prog.commit (funext fun done => ?_)
    cases done <;> rfl
  have hbody := feed_bind n (tryCatch p fun e => .rollback (.fail e)) hcommit
  rw [feed_tryCatch n p fun e _ => rfl] at hbody
  exact congrArg Prog.begin hbody

theorem Prog.feed_exec (n : ℕ) (tag : S.Tag) (want : View S.Db → Option S.Lock)
    (effect : View S.Db → List S.Write) (f : View S.Db → Prog S α) :
    (Prog.exec tag want effect >>= f).feed n = Prog.exec tag want effect >>= fun v => (f v).feed n := by
  refine congrArg (Prog.stmt tag want effect) (funext fun o => ?_)
  cases o <;> rfl

theorem Prog.closed_check (x : Except S.Err α) : (Prog.check x).Closed := by
  cases x <;> exact fun _ => rfl

def Proc.feed (n : ℕ) (p : Proc S) : Proc S := { p with prog := p.prog.feed n }

def State.feed (n : ℕ) (s : State S) : State S :=
  { s with procs := fun i => (s.procs i).map (Proc.feed n) }

def Label.inputs : Label S → List ℕ
  | .input _ n => [n]
  | _ => []

theorem State.feed_move (n : ℕ) (s : State S) (i : ℕ) (p : Proc S) (w : World S)
    (o : S.Lock → Option ℕ) : (s.move i p w o).feed n = (s.feed n).move i (p.feed n) w o := by
  have hprocs : (fun j => (Function.update s.procs i (some p) j).map (Proc.feed n)) =
      Function.update (fun j => (s.procs j).map (Proc.feed n)) i (some (p.feed n)) := by
    funext j
    by_cases hj : j = i
    · subst hj
      simp
    · simp [Function.update_of_ne hj]
  simp only [State.feed, State.move, hprocs]

variable [DecidableEq S.Lock] [DecidableEq S.Id] {body : S.Call → Prog S S.Res}
variable {s s' s₀ : State S} {i n : ℕ} {l : Label S} {ns : List ℕ}

theorem step_feed (body' : S.Call → Prog S S.Res) (hs : step body s l = some s')
    (hspawn : ∀ i c, l ≠ .spawn i c) (hl : l.inputs = []) : step body' (s.feed n) l = some (s'.feed n) := by
  have hproc {i : ℕ} {p : Proc S} (hp : s.procs i = some p) : (s.feed n).procs i = some (p.feed n) :=
    congrArg (Option.map (Proc.feed n)) hp
  apply Stepped.step
  cases stepped_of_step hs with
  | spawn => exact absurd rfl (hspawn _ _)
  | begin hp htx =>
    rw [State.feed_move]
    exact .begin (hproc hp) htx
  | stmt hp hfree hread =>
    rw [State.feed_move]
    exact .stmt (hproc hp) hfree hread
  | commit hp ht =>
    rw [State.feed_move]
    exact .commit (hproc hp) ht
  | rollback hp =>
    rw [State.feed_move]
    exact .rollback (hproc hp)
  | failStmt hp =>
    rw [State.feed_move]
    exact .failStmt (hproc hp)
  | failCommit hp =>
    rw [State.feed_move]
    exact .failCommit (hproc hp)
  | mint hp hx =>
    rw [State.feed_move]
    exact .mint (hproc hp) hx
  | input => cases hl
  | tick d => exact .tick d

theorem step_input (hs : step body s (.input i n) = some s') (hlone : ∀ j, j ≠ i → s.procs j = none) :
    s.feed n = s' := by
  cases stepped_of_step hs with
  | @input i n c loc k hp =>
    have hprocs : (fun j => (s.procs j).map (Proc.feed n)) =
        Function.update s.procs i (some ⟨c, k n, loc⟩) := by
      funext j
      by_cases hj : j = i
      · subst hj
        rw [hp, Function.update_self]
        rfl
      · rw [hlone j hj, Function.update_of_ne hj, hlone j hj]
        rfl
    rw [State.feed, hprocs]
    rfl

inductive ReachableOn (body : S.Call → Prog S S.Res) (ok : State S → Label S → Prop) (s₀ : State S) :
    List ℕ → State S → Prop
  | refl : ReachableOn body ok s₀ [] s₀
  | step {ns : List ℕ} {s s' : State S} {l : Label S} (h : ReachableOn body ok s₀ ns s) (hok : ok s l)
      (hs : step body s l = some s') : ReachableOn body ok s₀ (ns ++ l.inputs) s'

theorem ReachableOn.reachable {ok : State S → Label S → Prop} (h : ReachableOn body ok s₀ ns s) :
    Reachable body ok s₀ s := by
  induction h with
  | refl => exact .refl
  | step _ hok hs ih => exact ih.step hok hs

def Unspawned (_ : State S) (l : Label S) : Prop := ∀ i c, l ≠ .spawn i c

inductive Prog.Next : Prog S α → Prog S α → Prop
  | begin (k : Prog S α) : Next (.begin k) k
  | stmt (tag : S.Tag) (want : View S.Db → Option S.Lock) (effect : View S.Db → List S.Write)
    (k : Option (View S.Db) → Prog S α) (v : Option (View S.Db)) : Next (.stmt tag want effect k) (k v)
  | mint (k : S.Id → Prog S α) (x : S.Id) : Next (.mint k) (k x)
  | input (k : ℕ → Prog S α) (n : ℕ) : Next (.input k) (k n)
  | commit (k : Bool → Prog S α) (done : Bool) : Next (.commit k) (k done)
  | rollback (k : Prog S α) : Next (.rollback k) k

theorem step_next (hs : step body s l = some s') (hl : Unspawned s l) :
    s'.procs = s.procs ∧ s'.world.log = s.world.log ∨ ∃ i p p', s.procs i = some p ∧
      s'.procs = Function.update s.procs i (some p') ∧ p'.call = p.call ∧ p.prog.Next p'.prog ∧
      (s'.world.log = s.world.log ∨ ∃ k, p.prog = .commit k) := by
  cases stepped_of_step hs with
  | spawn => exact absurd rfl (hl _ _)
  | begin hp => exact .inr ⟨_, _, _, hp, rfl, rfl, .begin _, .inl rfl⟩
  | stmt hp => exact .inr ⟨_, _, _, hp, rfl, rfl, .stmt _ _ _ _ _, .inl rfl⟩
  | commit hp => exact .inr ⟨_, _, _, hp, rfl, rfl, .commit _ true, .inr ⟨_, rfl⟩⟩
  | rollback hp => exact .inr ⟨_, _, _, hp, rfl, rfl, .rollback _, .inl rfl⟩
  | failStmt hp => exact .inr ⟨_, _, _, hp, rfl, rfl, .stmt _ _ _ _ none, .inl rfl⟩
  | failCommit hp => exact .inr ⟨_, _, _, hp, rfl, rfl, .commit _ false, .inl rfl⟩
  | mint hp => exact .inr ⟨_, _, _, hp, rfl, rfl, .mint _ _, .inl rfl⟩
  | input hp => exact .inr ⟨_, _, _, hp, rfl, rfl, .input _ _, .inl rfl⟩
  | tick d => exact .inl ⟨rfl, rfl⟩

theorem step_lone {j : ℕ} (hs : step body s l = some s') (hl : Unspawned s l) (hj : s.procs j = none) :
    s'.procs j = none := by
  rcases step_next hs hl with ⟨hprocs, -⟩ | ⟨i, p, p', hp, hprocs, -⟩
  · rw [hprocs, hj]
  · have hne : j ≠ i := by
      rintro rfl
      cases hj.symm.trans hp
    rw [hprocs, Function.update_of_ne hne, hj]

theorem ReachableOn.lone (h : ReachableOn body Unspawned s₀ ns s) {j : ℕ} (hj : s₀.procs j = none) :
    s.procs j = none := by
  induction h with
  | refl => exact hj
  | step _ hok hs ih => exact step_lone hs hok ih

omit [DecidableEq S.Lock] [DecidableEq S.Id] in
theorem Label.inputs_cases (l : Label S) : l.inputs = [] ∨ ∃ i n, l = .input i n := by
  cases l with
  | input i n => exact .inr ⟨i, n, rfl⟩
  | _ => exact .inl rfl

theorem step_unspawned (body' : S.Call → Prog S S.Res) (hok : Unspawned s l) :
    step body s l = step body' s l := by
  cases l with
  | spawn i c => exact absurd rfl (hok i c)
  | _ => rfl

theorem ReachableOn.feed (body' : S.Call → Prog S S.Res) (h : ReachableOn body Unspawned s₀ ns s)
    (hlone : ∀ j, j ≠ i → s₀.procs j = none) :
    (ns = [] → ∀ n, ReachableOn body' Unspawned (s₀.feed n) [] (s.feed n)) ∧
      ∀ n ns', ns = n :: ns' → ReachableOn body' Unspawned (s₀.feed n) ns' s := by
  induction h with
  | refl => exact ⟨fun _ _ => .refl, fun _ _ hns => (by cases hns)⟩
  | @step ns s s' l h hok hs ih =>
    rcases l.inputs_cases with hl | ⟨j, m, rfl⟩
    · rw [hl, List.append_nil]
      refine ⟨fun hns n => ?_, fun n ns' hns => ?_⟩
      · have hstep := (ih.1 hns n).step hok (step_feed body' hs hok hl)
        rwa [hl] at hstep
      · rw [step_unspawned body' hok] at hs
        have hstep := (ih.2 n ns' hns).step hok hs
        rwa [hl, List.append_nil] at hstep
    · refine ⟨fun hns => absurd hns (by simp [Label.inputs]), fun n ns' hns => ?_⟩
      cases ns with
      | nil =>
        obtain ⟨rfl, rfl⟩ := List.cons.inj hns
        obtain ⟨p, hp, -⟩ := Option.bind_eq_some_iff.mp hs
        have hj : j = i := by
          by_contra hne
          cases hp.symm.trans (h.lone (hlone j hne))
        subst hj
        rw [← step_input hs fun j hj => h.lone (hlone j hj)]
        exact ih.1 rfl m
      | cons n' ns =>
        obtain ⟨rfl, rfl⟩ := List.cons.inj hns
        rw [step_unspawned body' hok] at hs
        exact (ih.2 n' ns rfl).step hok hs

theorem ReachableOn.steps (h : ReachableOn body Unspawned s₀ ns s) {ls : List (Label S)}
    (hs : (Policy.calls fun _ => False).steps body s ls = some s') :
    ReachableOn body Unspawned s₀ (ns ++ ls.flatMap Label.inputs) s' := by
  induction ls generalizing ns s with
  | nil =>
    cases hs
    rwa [List.flatMap_nil, List.append_nil]
  | cons l ls ih =>
    rw [Policy.steps, Option.ite_none_right_eq_some] at hs
    obtain ⟨hok, hs⟩ := hs
    obtain ⟨s₁, h₁, hs⟩ := Option.bind_eq_some_iff.mp hs
    have hl : Unspawned s l := by
      rintro i c rfl
      exact hok
    rw [List.flatMap_cons, ← List.append_assoc]
    exact ih (h.step hl h₁) hs

omit [DecidableEq S.Lock] [DecidableEq S.Id] in
theorem Unspawned.calls (h : Unspawned s l) : (Policy.calls fun _ => False).ok s l := by
  cases l with
  | spawn i c => exact absurd rfl (h i c)
  | run i => exact Policy.calls_run _ s i
  | fault i => exact fun _ _ => trivial
  | _ => trivial

variable {known : S.Db → S.Id → Prop} {d : S.Db} {c : S.Call} {r : Except S.Err S.Res} {p : Proc S}

def alone (body : S.Call → Prog S S.Res) (d : S.Db) (used : List S.Id) (c : S.Call) : State S :=
  (initial d used).move 0 ⟨c, body c, .idle⟩ (initial d used).world (initial d used).owner

/-- Alone with the content `d`, and taking what comes from outside from `ns` in this order, the call may
answer `r` while no statement of it fails. -/
def AnswersOn (body : S.Call → Prog S S.Res) (known : S.Db → S.Id → Prop) (d : S.Db) (c : S.Call)
    (ns : List ℕ) (r : Except S.Err S.Res) : Prop :=
  ∃ used ns' s p, (∀ x, known d x → x ∈ used) ∧ ns' <+: ns ∧
    ReachableOn body Unspawned (alone body d used c) ns' s ∧
    s.procs 0 = some p ∧ p.prog.Ends r ∧ p.loc.faulted = false

theorem AnswersOn.serves (h : AnswersOn body known d c ns r) :
    ∃ s p, Serves body known d c s ∧ s.procs 0 = some p ∧ p.prog.Ends r ∧ p.loc.faulted = false := by
  obtain ⟨used, ns', s, p, hused, -, hreach, hp⟩ := h
  refine ⟨s, p, ⟨used, hused, ?_⟩, hp⟩
  clear hp
  induction hreach with
  | refl => exact .refl
  | step _ hok hs ih => exact ih.step (hok.calls) hs

omit [DecidableEq S.Lock] [DecidableEq S.Id] in
theorem Prog.Ends.feed {prog : Prog S S.Res} (h : prog.Ends r) (n : ℕ) : (prog.feed n).Ends r := by
  cases prog with
  | ret a => exact h
  | fail e => exact h
  | _ => cases h

theorem AnswersOn.feed (h : AnswersOn body known d c (n :: ns) r) :
    AnswersOn (fun c => (body c).feed n) known d c ns r := by
  obtain ⟨used, ns', s, p, hused, hns, hreach, hp, hr, hclean⟩ := h
  have hlone (j : ℕ) (hj : j ≠ 0) : (alone body d used c).procs j = none := Function.update_of_ne hj ..
  obtain ⟨hnil, hcons⟩ := hreach.feed (fun c => (body c).feed n) hlone
  have hstart : (alone body d used c).feed n = alone (fun c => (body c).feed n) d used c :=
    State.feed_move ..
  cases ns' with
  | nil =>
    have hp' : (s.feed n).procs 0 = some (p.feed n) := congrArg (Option.map (Proc.feed n)) hp
    exact ⟨used, [], s.feed n, p.feed n, hused, List.nil_prefix, hstart ▸ hnil rfl n, hp', hr.feed n, hclean⟩
  | cons m ns' =>
    obtain ⟨rfl, htail⟩ := List.cons_prefix_cons.mp hns
    exact ⟨used, ns', s, p, hused, htail, hstart ▸ hcons m ns' rfl, hp, hr, hclean⟩

def State.answer (s : State S) : Option (Except S.Err S.Res) :=
  (s.procs 0).bind fun p => if p.loc.faulted then none else p.prog.result

theorem AnswersOn.steps {used : List S.Id} (hused : ∀ x, known d x → x ∈ used) {ls : List (Label S)}
    (hs : ((Policy.calls fun _ => False).steps body (alone body d used c) ls).bind State.answer = some r) :
    AnswersOn body known d c (ls.flatMap Label.inputs) r := by
  obtain ⟨s, hs, hanswer⟩ := Option.bind_eq_some_iff.mp hs
  obtain ⟨p, hp, hr⟩ := Option.bind_eq_some_iff.mp hanswer
  obtain ⟨hclean, hr⟩ := Option.ite_none_left_eq_some.mp hr
  exact ⟨used, _, s, p, hused, List.prefix_refl _, ReachableOn.refl.steps hs, hp, hr,
    Bool.eq_false_iff.mpr hclean⟩

end JitoGame.Transactions
