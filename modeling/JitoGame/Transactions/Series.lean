import JitoGame.Transactions.Inputs

namespace JitoGame.Transactions

variable {S : Schema} {α β : Type}

/-! Programs that commit once, at their end. -/

def Prog.Quiet : Prog S α → Prop
  | .ret _ | .fail _ => True
  | .begin k | .rollback k => k.Quiet
  | .stmt _ _ _ k => ∀ v, (k v).Quiet
  | .input k => ∀ n, (k n).Quiet
  | .mint _ | .commit _ => False

def Prog.CommitsLast : Prog S α → Prop
  | .ret _ | .fail _ => True
  | .begin k | .rollback k => k.CommitsLast
  | .stmt _ _ _ k => ∀ v, (k v).CommitsLast
  | .input k => ∀ n, (k n).CommitsLast
  | .mint k => ∀ x, (k x).CommitsLast
  | .commit k => ∀ done, (k done).Quiet

namespace Prog

variable {p : Prog S α} {f : α → Prog S β} {h : S.Err → Prog S α}

theorem Quiet.bind (hp : p.Quiet) (hf : ∀ a, (f a).Quiet) : (p >>= f).Quiet := by
  change (p.bind f).Quiet
  induction p with
  | ret a => exact hf a
  | fail e => trivial
  | begin k ih => exact ih hp
  | rollback k ih => exact ih hp
  | stmt tag want effect k ih => exact fun v => ih v (hp v)
  | input k ih => exact fun n => ih n (hp n)
  | mint k ih => exact hp
  | commit k ih => exact hp

theorem Quiet.handle (hp : p.Quiet) (hh : ∀ e, (h e).Quiet) : (tryCatch p h).Quiet := by
  change (p.handle h).Quiet
  induction p with
  | ret a => trivial
  | fail e => exact hh e
  | begin k ih => exact ih hp
  | rollback k ih => exact ih hp
  | stmt tag want effect k ih => exact fun v => ih v (hp v)
  | input k ih => exact fun n => ih n (hp n)
  | mint k ih => exact hp
  | commit k ih => exact hp

theorem Quiet.then (hp : p.Quiet) (hf : ∀ a, (f a).CommitsLast) : (p >>= f).CommitsLast := by
  change (p.bind f).CommitsLast
  induction p with
  | ret a => exact hf a
  | fail e => trivial
  | begin k ih => exact ih hp
  | rollback k ih => exact ih hp
  | stmt tag want effect k ih => exact fun v => ih v (hp v)
  | input k ih => exact fun n => ih n (hp n)
  | mint k ih => exact hp.elim
  | commit k ih => exact hp.elim

theorem Quiet.commitsLast (hp : p.Quiet) : p.CommitsLast := by
  induction p with
  | ret a => trivial
  | fail e => trivial
  | begin k ih => exact ih hp
  | rollback k ih => exact ih hp
  | stmt tag want effect k ih => exact fun v => ih v (hp v)
  | input k ih => exact fun n => ih n (hp n)
  | mint k ih => exact hp.elim
  | commit k ih => exact hp.elim

theorem CommitsLast.bind (hp : p.CommitsLast) (hf : ∀ a, (f a).Quiet) : (p >>= f).CommitsLast := by
  change (p.bind f).CommitsLast
  induction p with
  | ret a => exact (hf a).commitsLast
  | fail e => trivial
  | begin k ih => exact ih hp
  | rollback k ih => exact ih hp
  | stmt tag want effect k ih => exact fun v => ih v (hp v)
  | input k ih => exact fun n => ih n (hp n)
  | mint k ih => exact fun x => ih x (hp x)
  | commit k ih => exact fun done => (hp done).bind hf

theorem CommitsLast.handle (hp : p.CommitsLast) (hh : ∀ e, (h e).Quiet) :
    (tryCatch p h).CommitsLast := by
  change (p.handle h).CommitsLast
  induction p with
  | ret a => trivial
  | fail e => exact (hh e).commitsLast
  | begin k ih => exact ih hp
  | rollback k ih => exact ih hp
  | stmt tag want effect k ih => exact fun v => ih v (hp v)
  | input k ih => exact fun n => ih n (hp n)
  | mint k ih => exact fun x => ih x (hp x)
  | commit k ih => exact fun done => (hp done).handle hh

theorem Next.quiet {p' : Prog S α} (hn : p.Next p') (hp : p.Quiet) : p'.Quiet := by
  cases hn with
  | begin => exact hp
  | rollback => exact hp
  | stmt _ _ _ _ v => exact hp v
  | input _ n => exact hp n
  | mint => exact hp.elim
  | commit => exact hp.elim

theorem Next.commitsLast {p' : Prog S α} (hn : p.Next p') (hp : p.CommitsLast) :
    p'.Quiet ∨ (∀ k, p ≠ .commit k) ∧ p'.CommitsLast := by
  cases hn with
  | begin => exact .inr ⟨fun _ h => (by cases h), hp⟩
  | rollback => exact .inr ⟨fun _ h => (by cases h), hp⟩
  | stmt _ _ _ _ v => exact .inr ⟨fun _ h => (by cases h), hp v⟩
  | input _ n => exact .inr ⟨fun _ h => (by cases h), hp n⟩
  | mint _ x => exact .inr ⟨fun _ h => (by cases h), hp x⟩
  | commit _ done => exact .inl (hp done)

theorem quiet_pure (a : α) : (pure a : Prog S α).Quiet := trivial

theorem quiet_throw (e : S.Err) : (throw e : Prog S α).Quiet := trivial

theorem quiet_outside : (outside : Prog S ℕ).Quiet := fun _ => trivial

theorem commitsLast_fresh {f : S.Id → Prog S β} (h : ∀ x, (f x).CommitsLast) :
    (fresh >>= f).CommitsLast := h

theorem quiet_exec (tag : S.Tag) (want : View S.Db → Option S.Lock) (effect : View S.Db → List S.Write) :
    (exec tag want effect).Quiet := by
  intro v
  cases v <;> trivial

theorem quiet_require (q : Prop) [Decidable q] (e : S.Err) : (require q e).Quiet := by
  by_cases hq : q
  · rw [require, if_pos hq]
    trivial
  · rw [require, if_neg hq]
    trivial

theorem quiet_insert (tag : S.Tag) (lock : S.Lock) (taken : S.Db → Bool) (ws : List S.Write)
    (duplicate : S.Err) : (insert tag lock taken ws duplicate).Quiet :=
  (quiet_exec tag (fun _ => some lock) _).bind fun _ => quiet_require ..

theorem Quiet.transaction (hp : p.Quiet) : (transaction p).CommitsLast := by
  have hbody : (tryCatch p fun e => rollback (fail e) : Prog S α).Quiet := hp.handle fun _ => trivial
  apply hbody.then
  intro a done
  cases done <;> trivial

end Prog

variable {P : Protocol S} {i : ℕ} {c : S.Call} {Q : α → Local S → World S → Prop}
variable {E : S.Err → Local S → World S → Prop}

theorem wp_quiet {p : Prog S α} (hp : p.Quiet) {s : Local S} {w w' : World S} (hr : Rely P i s w w')
    (h : wp P i c p Q E s w) :
    ∃ s' w₁, Rely P i s' w₁ w' ∧ ((∃ a, Q a s' w₁) ∨ ∃ e, E e s' w₁) := by
  induction p generalizing s w with
  | ret a => exact ⟨s, w, hr, .inl ⟨a, h⟩⟩
  | fail e => exact ⟨s, w, hr, .inr ⟨e, h⟩⟩
  | begin k ih => exact ih hp (.refl hr.ok) (h.2 w' hr)
  | stmt tag want effect k ih => exact ih none (hp none) (.refl hr.ok) (h w' hr).1
  | mint k ih => exact hp.elim
  | input k ih => exact ih 0 (hp 0) (.refl hr.ok) (h w' hr 0)
  | commit k ih => exact hp.elim
  | rollback k ih => exact ih hp (.refl hr.ok) (h w' hr)

-- from here on the rules above are all there is to know of them
attribute [irreducible] Prog.Quiet Prog.CommitsLast

/-! One call in a world that no one else changes. -/

def World.settled (w : World S) : World S := { w with log := [] }

def World.given (w : World S) (body : S.Call → Prog S S.Res) (c : S.Call) : State S :=
  ⟨w, fun _ => none, Function.update (fun _ => none) 0 (some ⟨c, body c, .idle⟩)⟩

variable {known : S.Db → S.Id → Prop} {body : S.Call → Prog S S.Res} {w : World S} {s s' : State S}

theorem Invariant.given {done : Outcome S} (hlog : w.log = []) (hdb : w.db = P.base)
    (hk : ∀ x, P.known w.db x → x ∈ w.used) (hsafe : Safe P done 0 ⟨c, body c, .idle⟩ w) :
    Invariant P done (w.given body c) := by
  have hproc (i : ℕ) (p : Proc S) (h : (w.given body c).procs i = some p) :
      i = 0 ∧ p = ⟨c, body c, .idle⟩ := by
    by_cases hi : i = 0
    · subst hi
      simp only [World.given, Function.update_self, Option.some.injEq] at h
      exact ⟨rfl, h.symm⟩
    · simp [World.given, hi] at h
  have hok : w.Ok P := ⟨by rw [hlog]; exact hdb, by rw [hlog]; trivial, hk⟩
  refine ⟨hok, ?_, ?_, ?_, ?_, ?_, ?_⟩
  · intro i p h
    obtain ⟨rfl, rfl⟩ := hproc i p h
    exact ⟨w, .refl hok, hsafe⟩
  · intro i _
    change own i w.log = []
    rw [hlog]
    rfl
  · intro i p h l hl
    obtain ⟨-, rfl⟩ := hproc i p h
    obtain ⟨t, ht, -⟩ := hl
    cases ht
  · intro i p h x hx
    obtain ⟨-, rfl⟩ := hproc i p h
    cases hx
  · intro i j p q hne hp hq
    exact absurd ((hproc i p hp).1.trans (hproc j q hq).1.symm) hne
  · intro i p t h ht
    obtain ⟨-, rfl⟩ := hproc i p h
    cases ht

variable [DecidableEq S.Lock] [DecidableEq S.Id]

/-- Up to the state `s` the call `c` was served in the world `w`, alone; it may be anywhere. -/
structure Serving (known : S.Db → S.Id → Prop) (body : S.Call → Prog S S.Res) (w : World S) (c : S.Call)
    (s : State S) : Prop where
  log : w.log = []
  used : ∀ x, known w.db x → x ∈ w.used
  reach : Reachable body Unspawned (w.given body c) s

namespace Serving

omit [DecidableEq S.Lock] [DecidableEq S.Id] in
theorem start (hlog : w.log = []) (hused : ∀ x, known w.db x → x ∈ w.used) : Still known w.db 0 w :=
  ⟨⟨by rw [hlog]; rfl, by rw [hlog]; trivial, hused⟩, hlog⟩

theorem still (h : Serving known body w c s) : Still known w.db 0 w := start h.log h.used

theorem steps (hlog : w.log = []) (hused : ∀ x, known w.db x → x ∈ w.used) {ls : List (Label S)}
    (hs : (Policy.calls fun _ => False).steps body (w.given body c) ls = some s) :
    Serving known body w c s := by
  refine ⟨hlog, hused, ?_⟩
  have hreach := Policy.reachable_steps _ .refl hs
  clear hs
  induction hreach with
  | refl => exact .refl
  | @step s s' l _ hok hs ih =>
    refine ih.step ?_ hs
    rintro i c rfl
    exact hok

theorem proc (h : Serving known body w c s) :
    (∀ j, j ≠ 0 → s.procs j = none) ∧ ∃ p, s.procs 0 = some p ∧ p.call = c := by
  have hreach := h.reach
  clear h
  induction hreach with
  | refl =>
    refine ⟨fun j hj => ?_, ⟨c, body c, .idle⟩, by simp [World.given], rfl⟩
    simp [World.given, hj]
  | step _ hok hs ih =>
    obtain ⟨hlone, p, hp, hcall⟩ := ih
    refine ⟨fun j hj => step_lone hs hok (hlone j hj), ?_⟩
    rcases step_next hs hok with ⟨hprocs, -⟩ | ⟨i, q, q', hq, hprocs, hcall', -⟩
    · exact ⟨p, hprocs ▸ hp, hcall⟩
    · by_cases hi : i = 0
      · subst hi
        cases hp.symm.trans hq
        exact ⟨q', by rw [hprocs, Function.update_self], hcall'.trans hcall⟩
      · cases (hlone i hi).symm.trans hq

theorem commitsLast (h : Serving known body w c s) (hc : (body c).CommitsLast) {p : Proc S}
    (hp : s.procs 0 = some p) : s.world.log = [] ∧ p.prog.CommitsLast ∨ p.prog.Quiet := by
  obtain ⟨hlog, hused, hreach⟩ := h
  induction hreach generalizing p with
  | refl =>
    simp only [World.given, Function.update_self, Option.some.injEq] at hp
    subst hp
    exact .inl ⟨hlog, hc⟩
  | @step s s' l hreach hok hs ih =>
    obtain ⟨hlone, q, hq, -⟩ := proc (⟨hlog, hused, hreach⟩ : Serving known body w c s)
    rcases step_next hs hok with ⟨hprocs, hlog'⟩ | ⟨i, r, r', hr, hprocs, -, hnext, hlog'⟩
    · rw [hlog']
      exact ih (hprocs ▸ hp)
    · obtain rfl : i = 0 := by
        by_contra hi
        cases (hlone i hi).symm.trans hr
      rw [hprocs, Function.update_self] at hp
      cases hp
      rcases ih hr with ⟨hnil, hr⟩ | hr
      · rcases hnext.commitsLast hr with hquiet | ⟨hne, hlast⟩
        · exact .inr hquiet
        · have hsame := hlog'.resolve_right fun ⟨k, hk⟩ => hne k hk
          exact .inl ⟨hsame.trans hnil, hlast⟩
      · exact .inr (hnext.quiet hr)

theorem meets {done : Outcome S} (h : Serving known body w c s) (hdb : w.db = P.base)
    (hk : ∀ x, P.known w.db x → known w.db x) (hsafe : Safe P done 0 ⟨c, body c, .idle⟩ w) :
    Invariant P done s := by
  have hstart : Invariant P done (w.given body c) := .given h.log hdb (fun x hx => h.used x (hk x hx)) hsafe
  have hv : Verified P body (fun _ => False) done := fun _ _ _ hno => hno.elim
  exact hstart.reachable hv (fun _ i c hok => hok i c rfl) h.reach

section Outcome

variable {X : Except S.Err S.Res → Local S → World S → Prop}

theorem invariant (h : Serving known body w c s)
    (hwp : wp (.sole known w.db 0) 0 c (body c) (fun a => X (.ok a)) (fun e => X (.error e)) .idle w) :
    Invariant (.sole known w.db 0) (fun _ _ r => X r) s :=
  h.meets (P := .sole known w.db 0) rfl (fun _ hx => hx) hwp

theorem outcome (h : Serving known body w c s)
    (hwp : wp (.sole known w.db 0) 0 c (body c) (fun a => X (.ok a)) (fun e => X (.error e)) .idle w)
    {p : Proc S} (hp : s.procs 0 = some p) {r : Except S.Err S.Res} (hr : p.prog.Ends r) :
    ∃ w₀, X r p.loc w₀ ∧ w₀.log = s.world.log ∧ w₀.clock ≤ s.world.clock := by
  obtain ⟨w₀, hrely, hX⟩ := (h.invariant hwp).outcome hp hr
  exact ⟨w₀, hX, hrely.log_eq.symm, hrely.clock⟩

theorem abandoned (h : Serving known body w c s)
    (hwp : wp (.sole known w.db 0) 0 c (body c) (fun a => X (.ok a)) (fun e => X (.error e)) .idle w)
    (hc : (body c).CommitsLast) :
    s.world.log = [] ∨ ∃ r s' w₀, X r s' w₀ ∧ w₀.log = s.world.log ∧ w₀.clock ≤ s.world.clock := by
  obtain ⟨-, p, hp, -⟩ := h.proc
  rcases h.commitsLast hc hp with ⟨hnil, -⟩ | hquiet
  · exact .inl hnil
  · obtain ⟨w₀, hrely, hsafe⟩ := (h.invariant hwp).safe 0 p hp
    obtain ⟨s', w₁, hrely, ⟨a, hX⟩ | ⟨e, hX⟩⟩ := wp_quiet hquiet hrely hsafe
    · exact .inr ⟨.ok a, s', w₁, hX, hrely.log_eq.symm, hrely.clock⟩
    · exact .inr ⟨.error e, s', w₁, hX, hrely.log_eq.symm, hrely.clock⟩

theorem ok (h : Serving known body w c s)
    (hwp : wp (.sole known w.db 0) 0 c (body c) (fun a => X (.ok a)) (fun e => X (.error e)) .idle w) :
    s.world.Ok (.sole known w.db 0) := (h.invariant hwp).ok

end Outcome

end Serving

/-! When the transactions of a call began. -/

structure State.Within (n : ℕ) (s : State S) : Prop where
  clock : n ≤ s.world.clock
  procs : ∀ i p t, s.procs i = some p → p.loc.tx = some t → n ≤ t.start ∧ t.start ≤ s.world.clock
  log : ∀ c ∈ s.world.log, n ≤ c.start ∧ c.start ≤ s.world.clock

namespace State.Within

variable {n i : ℕ} {q : Proc S} {l : Label S}

omit [DecidableEq S.Lock] [DecidableEq S.Id] in
theorem move (h : s.Within n) {o : S.Lock → Option ℕ} (hclock : w.clock = s.world.clock)
    (hlog : ∀ c ∈ w.log, n ≤ c.start ∧ c.start ≤ s.world.clock)
    (hq : ∀ t, q.loc.tx = some t → n ≤ t.start ∧ t.start ≤ s.world.clock) : (s.move i q w o).Within n where
  clock := hclock ▸ h.clock
  procs j r t hr ht := by
    rw [show (s.move i q w o).world = w from rfl, hclock]
    by_cases hj : j = i
    · subst hj
      simp only [State.move, Function.update_self, Option.some.injEq] at hr
      exact hq t (hr ▸ ht)
    · exact h.procs j r t (by simpa [State.move, hj] using hr) ht
  log := by
    rw [show (s.move i q w o).world = w from rfl, hclock]
    exact hlog

theorem step (h : s.Within n) (hs : step body s l = some s') (hl : Unspawned s l) : s'.Within n := by
  cases stepped_of_step hs with
  | spawn => exact absurd rfl (hl _ _)
  | begin hp =>
    apply h.move rfl h.log
    intro t ht
    cases ht
    exact ⟨h.clock, Nat.le_refl _⟩
  | stmt hp =>
    apply h.move rfl h.log
    intro t ht
    obtain ⟨t₀, ht₀, rfl⟩ := Option.map_eq_some_iff.mp ht
    exact h.procs _ _ t₀ hp ht₀
  | commit hp ht =>
    refine h.move rfl (fun c hc => ?_) fun t ht => by cases ht
    rcases List.mem_cons.mp hc with rfl | hc
    · exact h.procs _ _ _ hp ht
    · exact h.log c hc
  | rollback hp => exact h.move rfl h.log fun t ht => by cases ht
  | failStmt hp => exact h.move rfl h.log fun t ht => h.procs _ _ t hp ht
  | failCommit hp => exact h.move rfl h.log fun t ht => by cases ht
  | mint hp => exact h.move rfl h.log fun t ht => h.procs _ _ t hp ht
  | input hp => exact h.move rfl h.log fun t ht => h.procs _ _ t hp ht
  | tick d =>
    refine ⟨Nat.le_trans h.clock (Nat.le_add_right ..), fun i p t hp ht => ?_, fun c hc => ?_⟩
    · exact ⟨(h.procs i p t hp ht).1, Nat.le_trans (h.procs i p t hp ht).2 (Nat.le_add_right ..)⟩
    · exact ⟨(h.log c hc).1, Nat.le_trans (h.log c hc).2 (Nat.le_add_right ..)⟩

end State.Within

theorem Serving.within (h : Serving known body w c s) : s.Within w.clock := by
  obtain ⟨hlog, -, hreach⟩ := h
  induction hreach with
  | refl =>
    refine ⟨Nat.le_refl _, fun i p t hp ht => ?_, fun c' hc => ?_⟩
    · by_cases hi : i = 0
      · subst hi
        simp only [World.given, Function.update_self, Option.some.injEq] at hp
        subst hp
        cases ht
      · simp [World.given, hi] at hp
    · rw [show (w.given body c).world.log = w.log from rfl, hlog] at hc
      cases hc
  | step _ hok hs ih => exact ih.step hs hok

/-- Calls one after the other, each given to process `0` when the one before it has returned or was
abandoned; `ps` is where each of them ended. -/
inductive Series (known : S.Db → S.Id → Prop) (body : S.Call → Prog S S.Res) :
    World S → List (Proc S) → World S → Prop
  | nil (w : World S) : Series known body w [] w
  | cons {w w' : World S} {c : S.Call} {s : State S} {p : Proc S} {ps : List (Proc S)}
    (h : Serving known body w c s) (hp : s.procs 0 = some p)
    (hs : Series known body s.world.settled ps w') : Series known body w (p :: ps) w'

def World.serve (body : S.Call → Prog S S.Res) (w : World S) :
    List (S.Call × List (Label S)) → Option (List (Proc S) × World S)
  | [] => some ([], w)
  | (c, ls) :: calls =>
    ((Policy.calls fun _ => False).steps body (w.given body c) ls).bind fun s =>
      (s.procs 0).bind fun p => (World.serve body s.world.settled calls).map fun x => (p :: x.1, x.2)

theorem Series.serve (hall : ∀ w c s, Serving known body w c s → ∀ x, known s.world.db x → x ∈ s.world.used)
    {calls : List (S.Call × List (Label S))} {ps : List (Proc S)} {w' : World S} (hlog : w.log = [])
    (hused : ∀ x, known w.db x → x ∈ w.used) (h : w.serve body calls = some (ps, w')) :
    Series known body w ps w' ∧ w'.log = [] ∧ ∀ x, known w'.db x → x ∈ w'.used := by
  induction calls generalizing w ps with
  | nil =>
    cases h
    exact ⟨.nil _, hlog, hused⟩
  | cons call calls ih =>
    obtain ⟨s, hs, h⟩ := Option.bind_eq_some_iff.mp h
    obtain ⟨p, hp, h⟩ := Option.bind_eq_some_iff.mp h
    obtain ⟨⟨qs, w₂⟩, hrest, heq⟩ := Option.map_eq_some_iff.mp h
    cases heq
    have hserving : Serving known body w call.1 s := .steps hlog hused hs
    obtain ⟨hseries, hend⟩ := ih (w := s.world.settled) rfl (hall w call.1 s hserving) hrest
    exact ⟨.cons hserving hp hseries, hend⟩

end JitoGame.Transactions
