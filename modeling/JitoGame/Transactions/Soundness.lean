import JitoGame.Transactions.Wp

namespace JitoGame.Transactions

variable {S : Schema}

abbrev Outcome (S : Schema) := ℕ → S.Call → Except S.Err S.Res → Local S → World S → Prop

def Prog.result : Prog S S.Res → Option (Except S.Err S.Res)
  | .ret a => some (.ok a)
  | .fail e => some (.error e)
  | _ => none

def Prog.Ends (p : Prog S S.Res) (r : Except S.Err S.Res) : Prop := p.result = some r

def Safe (P : Protocol S) (done : Outcome S) (i : ℕ) (p : Proc S) (w : World S) : Prop :=
  wp P i p.call p.prog (fun a => done i p.call (.ok a)) (fun e => done i p.call (.error e)) p.loc w

def Verified (P : Protocol S) (body : S.Call → Prog S S.Res) (admits : S.Call → Prop)
    (done : Outcome S) : Prop :=
  ∀ i c w, admits c → w.Ok P → own i w.log = [] → Safe P done i ⟨c, body c, .idle⟩ w

structure Invariant (P : Protocol S) (done : Outcome S) (s : State S) : Prop where
  ok : s.world.Ok P
  safe : ∀ i p, s.procs i = some p → ∃ w₀, Rely P i p.loc w₀ s.world ∧ Safe P done i p w₀
  quiet : ∀ i, s.procs i = none → own i s.world.log = []
  locked : ∀ i p, s.procs i = some p → ∀ l, p.loc.Holds (.row l) → s.owner l = some i
  minted : ∀ i p, s.procs i = some p → ∀ x ∈ p.loc.minted, x ∈ s.world.used
  apart : ∀ i j p q, i ≠ j → s.procs i = some p → s.procs j = some q →
    ∀ x ∈ p.loc.minted, x ∉ q.loc.minted
  foot : ∀ i p t, s.procs i = some p → p.loc.tx = some t → ∀ x ∈ t.writes, ∀ r ∈ P.foot x,
    p.loc.Holds r

variable {P : Protocol S} {done : Outcome S} {s : State S} {i : ℕ}

theorem Invariant.start {d : S.Db} {used : List S.Id} (hd : d = P.base)
    (hk : ∀ x, P.known d x → x ∈ used) : Invariant P done (initial d used) where
  ok := ⟨hd, trivial, hk⟩
  safe i p h := by cases h
  quiet i _ := rfl
  locked i p h := by cases h
  minted i p h := by cases h
  apart i j p q _ h := by cases h
  foot i p t h := by cases h

structure Moved (P : Protocol S) (done : Outcome S) (s : State S) (i : ℕ) (s' : State S) : Prop where
  inv : Invariant P done s'
  safe : ∀ p, s'.procs i = some p → Safe P done i p s'.world
  others : ∀ j, j ≠ i → s'.procs j = s.procs j

theorem Invariant.move (h : Invariant P done s) {p : Proc S} {w : World S} {o : S.Lock → Option ℕ}
    (hw : w.Ok P) (hsafe : Safe P done i p w)
    (hrely : ∀ j q, j ≠ i → s.procs j = some q → Rely P j q.loc s.world w)
    (hquiet : ∀ j, j ≠ i → own j w.log = own j s.world.log)
    (hlock : ∀ l, p.loc.Holds (.row l) → o l = some i)
    (hother : ∀ l j, j ≠ i → s.owner l = some j → o l = some j)
    (hmint : ∀ x ∈ p.loc.minted, x ∈ w.used)
    (hapart : ∀ j q, j ≠ i → s.procs j = some q → ∀ x ∈ p.loc.minted, x ∉ q.loc.minted)
    (hfoot : ∀ t, p.loc.tx = some t → ∀ x ∈ t.writes, ∀ r ∈ P.foot x, p.loc.Holds r) :
    Moved P done s i (s.move i p w o) := by
  have self {q : Proc S} (hq : (s.move i p w o).procs i = some q) : p = q := by
    simpa [State.move] using hq
  have hsame (j : ℕ) (hj : j ≠ i) : (s.move i p w o).procs j = s.procs j := by
    simp [State.move, hj]
  have other {j : ℕ} {q : Proc S} (hj : j ≠ i) (hq : (s.move i p w o).procs j = some q) :
      s.procs j = some q := (hsame j hj).symm.trans hq
  refine ⟨⟨hw, ?_, ?_, ?_, ?_, ?_, ?_⟩, fun q hq => self hq ▸ hsafe, hsame⟩
  · intro j q hq
    by_cases hj : j = i
    · subst hj; cases self hq; exact ⟨w, .refl hw, hsafe⟩
    · obtain ⟨w₀, h₀, hs⟩ := h.safe j q (other hj hq)
      exact ⟨w₀, h₀.trans (hrely j q hj (other hj hq)), hs⟩
  · intro j hq
    have hj : j ≠ i := by rintro rfl; simp [State.move] at hq
    exact (hquiet j hj).trans (h.quiet j ((hsame j hj).symm.trans hq))
  · intro j q hq l hl
    by_cases hj : j = i
    · subst hj; cases self hq; exact hlock l hl
    · exact hother l j hj (h.locked j q (other hj hq) l hl)
  · intro j q hq x hx
    by_cases hj : j = i
    · subst hj; cases self hq; exact hmint x hx
    · exact (hrely j q hj (other hj hq)).used (h.minted j q (other hj hq) x hx)
  · intro j k q q' hjk hq hq' x hx hx'
    by_cases hj : j = i
    · subst hj; cases self hq; exact hapart k q' hjk.symm (other hjk.symm hq') x hx hx'
    · by_cases hk : k = i
      · subst hk; cases self hq'; exact hapart j q hj (other hj hq) x hx' hx
      · exact h.apart j k q q' hjk (other hj hq) (other hk hq') x hx hx'
  · intro j q t hq ht
    by_cases hj : j = i
    · subst hj; cases self hq; exact hfoot t ht
    · exact h.foot j q t (other hj hq) ht

theorem Invariant.quietMove (h : Invariant P done s) {p p' : Proc S} (hp : s.procs i = some p)
    {o : S.Lock → Option ℕ} (hsafe : Safe P done i p' s.world) (hm : p'.loc.minted = p.loc.minted)
    (hlock : ∀ l, p'.loc.Holds (.row l) → o l = some i)
    (hother : ∀ l j, j ≠ i → s.owner l = some j → o l = some j)
    (hfoot : ∀ t, p'.loc.tx = some t → ∀ x ∈ t.writes, ∀ r ∈ P.foot x, p'.loc.Holds r) :
    Moved P done s i (s.move i p' s.world o) :=
  h.move h.ok hsafe (fun _ _ _ _ => .refl h.ok) (fun _ _ => rfl) hlock hother
    (hm ▸ h.minted i p hp) (fun j q hj hq => hm ▸ h.apart i j p q hj.symm hp hq) hfoot

theorem release_other {o : S.Lock → Option ℕ} {l : S.Lock} {j : ℕ} (hj : j ≠ i)
    (h : o l = some j) : release o i l = some j := by
  simp [release, h, hj]

theorem ended_holds {s : Local S} {l : S.Lock} : ¬ s.ended.Holds (.row l) := by
  simp [Local.Holds, Local.ended]

variable {c : S.Call} {loc : Local S}

theorem Invariant.mint (h : Invariant P done s) {k : S.Id → Prog S S.Res}
    (hp : s.procs i = some ⟨c, .mint k, loc⟩) {x : S.Id} (hx : x ∉ s.world.used) :
    Moved P done s i (s.move i ⟨c, k x, loc.mint x⟩ (s.world.mint x) s.owner) := by
  obtain ⟨w₀, hr, hsafe⟩ := h.safe i _ hp
  refine h.move (h.ok.mint x) (hsafe _ hr x hx)
    (fun _ _ _ _ => .mint h.ok x) (fun _ _ => rfl) (fun l hl => h.locked i _ hp l hl)
    (fun _ _ _ hl => hl) ?_ ?_ ?_
  · intro y hy
    rcases List.mem_cons.mp hy with rfl | hy
    · exact List.mem_cons_self
    · exact List.mem_cons_of_mem _ (h.minted i _ hp y hy)
  · intro j q hj hq y hy hyq
    rcases List.mem_cons.mp hy with rfl | hy
    · exact hx (h.minted j q hq y hyq)
    · exact h.apart i j _ q hj.symm hp hq y hy hyq
  · intro t ht y hy r hr
    have hold := h.foot i _ t hp ht y hy r hr
    cases r with
    | row l => exact hold
    | id z => exact List.mem_cons_of_mem _ hold

theorem Invariant.input (h : Invariant P done s) {k : ℕ → Prog S S.Res}
    (hp : s.procs i = some ⟨c, .input k, loc⟩) (n : ℕ) :
    Moved P done s i (s.move i ⟨c, k n, loc⟩ s.world s.owner) := by
  obtain ⟨w₀, hr, hsafe⟩ := h.safe i _ hp
  have hl := h.locked i _ hp
  have hf := fun t => h.foot i _ t hp
  exact h.quietMove hp (hsafe _ hr n) rfl hl (fun _ _ _ hl => hl) hf

theorem Invariant.spawn (h : Invariant P done s) {p : Proc S}
    (hloc : p.loc = .idle) (hsafe : Safe P done i p s.world) :
    Moved P done s i (s.move i p s.world s.owner) := by
  refine h.move h.ok hsafe (fun _ _ _ _ => .refl h.ok) (fun _ _ => rfl) (fun l hl => ?_)
    (fun _ _ _ hl => hl) (fun x hx => ?_) (fun _ _ _ _ x hx => ?_) (fun t ht => ?_)
  · obtain ⟨t, ht, -⟩ := hl
    simp [hloc, Local.idle] at ht
  · simp [hloc, Local.idle] at hx
  · simp [hloc, Local.idle] at hx
  · simp [hloc, Local.idle] at ht

theorem Invariant.tick (h : Invariant P done s) (d : ℕ) :
    Invariant P done { s with world := s.world.tick d } := by
  refine ⟨h.ok.tick d, fun i p hp => ?_, h.quiet, h.locked, h.minted, h.apart, h.foot⟩
  obtain ⟨w₀, hr, hsafe⟩ := h.safe i p hp
  exact ⟨w₀, hr.trans (.tick h.ok d), hsafe⟩

theorem Invariant.outcome (h : Invariant P done s) {p : Proc S} (hp : s.procs i = some p)
    {r : Except S.Err S.Res} (hr : p.prog.Ends r) :
    ∃ w₀, Rely P i p.loc w₀ s.world ∧ done i p.call r p.loc w₀ := by
  obtain ⟨w₀, h₀, hsafe⟩ := h.safe i p hp
  obtain ⟨c, prog, loc⟩ := p
  cases prog with
  | ret a => cases hr; exact ⟨w₀, h₀, hsafe⟩
  | fail e => cases hr; exact ⟨w₀, h₀, hsafe⟩
  | _ => cases hr

theorem Invariant.begin (h : Invariant P done s) {k : Prog S S.Res}
    (hp : s.procs i = some ⟨c, .begin k, loc⟩) :
    Moved P done s i (s.move i ⟨c, k, loc.begun s.world⟩ s.world s.owner) := by
  obtain ⟨w₀, hr, hsafe⟩ := h.safe i _ hp
  refine h.quietMove hp (hsafe.2 _ hr) rfl (fun l hl => ?_) (fun _ _ _ hl => hl) (fun t ht => ?_)
  · obtain ⟨t, ht, hl⟩ := hl
    cases ht; cases hl
  · cases ht; simp

theorem Invariant.commit (h : Invariant P done s) {k : Bool → Prog S S.Res} {t : Tx S}
    (hp : s.procs i = some ⟨c, .commit k, loc⟩) (ht : loc.tx = some t) :
    Moved P done s i (s.move i ⟨c, k true, loc.ended⟩ (s.world.push (commitOf i c loc t s.world))
      (release s.owner i)) := by
  obtain ⟨w₀, hr, hsafe⟩ := h.safe i _ hp
  obtain ⟨t', ht', hk⟩ := hsafe
  cases ht.symm.trans ht'
  obtain ⟨hspec, hk, -⟩ := hk _ hr
  have hok : (s.world.push (commitOf i c loc t s.world)).Ok P :=
    h.ok.push hspec fun x hx y hy => h.minted i _ hp y (h.foot i _ t hp ht x hx _ hy)
  -- the footprint of the commit is held by `i`, so nobody else holds any of it
  have hfar (j : ℕ) (q : Proc S) (hj : j ≠ i) (hq : s.procs j = some q) :
      ∀ x ∈ t.writes, ∀ r ∈ P.foot x, ¬ q.loc.Holds r := by
    intro x hx r hr hqr
    have hold := h.foot i _ t hp ht x hx r hr
    cases r with
    | row l =>
      have := (h.locked i _ hp l hold).symm.trans (h.locked j q hq l hqr)
      exact hj (Option.some.inj this).symm
    | id y => exact h.apart i j _ q hj.symm hp hq y hold hqr
  have hm := h.minted i _ hp
  have ha := fun j q hj hq => h.apart i j _ q (Ne.symm hj) hp hq
  exact h.move hok (hk hok)
    (fun j q hj hq => .push hok hj.symm (hfar j q hj hq))
    (fun j hj => own_cons_other hj.symm _) (fun l hl => (ended_holds hl).elim)
    (fun l j hj hl => release_other hj hl) hm ha (fun t ht => by cases ht)

theorem Invariant.ended (h : Invariant P done s) {p p' : Proc S} (hp : s.procs i = some p)
    (hsafe : Safe P done i p' s.world) (hm : p'.loc.minted = p.loc.minted) (htx : p'.loc.tx = none) :
    Moved P done s i (s.move i p' s.world (release s.owner i)) := by
  refine h.quietMove hp hsafe hm (fun l hl => ?_) (fun l j hj hl => release_other hj hl) fun t ht => ?_
  · obtain ⟨t, ht, -⟩ := hl
    cases htx.symm.trans ht
  · cases htx.symm.trans ht

variable [DecidableEq S.Lock]

theorem acquire_other {o : S.Lock → Option ℕ} {m : Option S.Lock} (hf : free o i m = true)
    {l : S.Lock} {j : ℕ} (hj : j ≠ i) (h : o l = some j) : acquire o i m l = some j := by
  cases m with
  | none => exact h
  | some m =>
    have hl : l ≠ m := by rintro rfl; simp [free, h, hj] at hf
    simp [acquire, hl, h]

theorem Invariant.stmt (h : Invariant P done s) {tag : S.Tag} {want : View S.Db → Option S.Lock}
    {effect : View S.Db → List S.Write} {k : Option (View S.Db) → Prog S S.Res}
    (hp : s.procs i = some ⟨c, .stmt tag want effect k, loc⟩)
    (hfree : free s.owner i (want (loc.view s.world)) = true) :
    Moved P done s i (s.move i ⟨c, k (some (loc.view s.world)),
      loc.exec tag (want (loc.view s.world)) (effect (loc.view s.world)) s.world⟩ s.world
      (acquire s.owner i (want (loc.view s.world)))) := by
  obtain ⟨w₀, hr, hsafe⟩ := h.safe i _ hp
  obtain ⟨-, hfoot, hk⟩ := hsafe _ hr
  refine h.quietMove hp hk rfl ?_ (fun l j hj hl => acquire_other hfree hj hl) ?_
  · rintro l ⟨t, ht, hl⟩
    obtain ⟨t₀, ht₀, rfl⟩ := Option.map_eq_some_iff.mp ht
    rcases List.mem_append.mp hl with hl | hl
    · rw [Option.mem_toList] at hl
      simp [acquire, hl]
    · have hown := h.locked i _ hp l ⟨t₀, ht₀, hl⟩
      cases hm : want (loc.view s.world) with
      | none => simpa [acquire, hm] using hown
      | some m => by_cases hlm : l = m <;> simp [acquire, hlm, hown]
  · intro t ht x hx r hr
    obtain ⟨t₀, ht₀, rfl⟩ := Option.map_eq_some_iff.mp ht
    rcases List.mem_append.mp hx with hx | hx
    · have hold := h.foot i _ t₀ hp ht₀ x hx r hr
      cases r with
      | row l =>
        obtain ⟨t₁, ht₁, hl⟩ := hold
        cases ht₀.symm.trans ht₁
        exact ⟨_, ht, List.mem_append_right _ hl⟩
      | id x => exact hold
    · exact hfoot x hx r hr

variable [DecidableEq S.Id] {body : S.Call → Prog S S.Res} {admits : S.Call → Prop}

theorem Invariant.step (h : Invariant P done s) (hv : Verified P body admits done) {l : Label S}
    (hl : ∀ i c, l = .spawn i c → admits c) {s' : State S} (hs : step body s l = some s') :
    (∃ i, Moved P done s i s') ∨ ∃ d, l = .tick d ∧ s' = { s with world := s.world.tick d } := by
  cases stepped_of_step hs with
  | @spawn i c hi => exact .inl ⟨i, h.spawn rfl (hv i c _ (hl i c rfl) h.ok (h.quiet i hi))⟩
  | begin hp => exact .inl ⟨_, h.begin hp⟩
  | stmt hp hfree => exact .inl ⟨_, h.stmt hp hfree⟩
  | commit hp ht => exact .inl ⟨_, h.commit hp ht⟩
  | rollback hp =>
    obtain ⟨w₀, hr, hsafe⟩ := h.safe _ _ hp
    exact .inl ⟨_, h.ended hp (hsafe _ hr) rfl rfl⟩
  | failStmt hp =>
    obtain ⟨w₀, hr, hsafe⟩ := h.safe _ _ hp
    have hlocked := h.locked _ _ hp
    have hfoot := fun t => h.foot _ _ t hp
    exact .inl ⟨_, h.quietMove hp (hsafe _ hr).1 rfl hlocked (fun _ _ _ hl => hl) hfoot⟩
  | failCommit hp =>
    obtain ⟨w₀, hr, t, ht, hk⟩ := h.safe _ _ hp
    exact .inl ⟨_, h.ended hp (hk _ hr).2.2 rfl rfl⟩
  | mint hp hx => exact .inl ⟨_, h.mint hp hx⟩
  | input hp => exact .inl ⟨_, h.input hp _⟩
  | tick d => exact .inr ⟨d, rfl, rfl⟩

theorem Invariant.reachable {ok : State S → Label S → Prop} {s₀ : State S}
    (hv : Verified P body admits done) (hadm : ∀ s i c, ok s (.spawn i c) → admits c)
    (h₀ : Invariant P done s₀) (hs : Reachable body ok s₀ s) : Invariant P done s := by
  induction hs with
  | refl => exact h₀
  | step h hok hstep ih =>
    rcases ih.step hv (fun i c hl => hadm _ i c (hl ▸ hok)) hstep with ⟨i, hm⟩ | ⟨d, -, rfl⟩
    · exact hm.inv
    · exact ih.tick d

theorem Invariant.returns (h : Invariant P done s) (hv : Verified P body admits done) {l : Label S}
    (hl : ∀ i c, l = .spawn i c → admits c) {s' : State S} (hs : Transactions.step body s l = some s')
    (hrun : ∀ p, s.procs i = some p → ∀ r, ¬ p.prog.Ends r) {p : Proc S}
    (hp : s'.procs i = some p) {r : Except S.Err S.Res} (hr : p.prog.Ends r) :
    done i p.call r p.loc s'.world := by
  have hsafe : Safe P done i p s'.world := by
    rcases h.step hv hl hs with ⟨j, hm⟩ | ⟨d, -, rfl⟩
    · by_cases hj : i = j
      · subst hj; exact hm.safe p hp
      · exact absurd hr (hrun p ((hm.others i hj).symm.trans hp) r)
    · exact absurd hr (hrun p hp r)
  obtain ⟨c, prog, loc⟩ := p
  cases prog with
  | ret a => cases hr; exact hsafe
  | fail e => cases hr; exact hsafe
  | _ => cases hr

end JitoGame.Transactions
