import JitoGame.Transactions.Chronicle

namespace JitoGame.Transactions

variable {S : Schema}

/-- A condition on the steps of a run: the calls made, what their statements find, the commits with
the content and the commits they meet, and the calls whose steps may fail. -/
structure Policy (S : Schema) where
  spawn : S.Call → Prop
  stmt : S.Call → Mark S → Prop
  commit : Commit S → S.Db → List (Commit S) → Prop
  fault : S.Call → Prop

def Mark.since (m : Mark S) (log : List (Commit S)) : List (Commit S) := log.take (log.length - m.index)

namespace Policy

abbrev calls (a : S.Call → Prop) : Policy S :=
  ⟨a, fun _ _ => True, fun _ _ _ => True, fun _ => True⟩

def admits (K : Policy S) (i : ℕ) (c : S.Call) (loc : Local S) (w : World S) : Prog S S.Res → Prop
  | .stmt tag want _ _ => K.stmt c (loc.mark tag (want (loc.view w)) w)
  | .commit _ => ∀ t ∈ loc.tx, K.commit (commitOf i c loc t w) w.db w.log
  | _ => True

def ok (K : Policy S) (s : State S) : Label S → Prop
  | .spawn _ c => K.spawn c
  | .run i => ∀ p ∈ s.procs i, K.admits i p.call p.loc s.world p.prog
  | .fault i => ∀ p ∈ s.procs i, K.fault p.call
  | .mint _ _ | .input _ _ | .tick _ => True

theorem calls_run (a : S.Call → Prop) (s : State S) (i : ℕ) : (calls a).ok s (.run i) := by
  intro p _
  cases p.prog with
  | commit k => exact fun _ _ => trivial
  | _ => trivial

section Decide

variable (K : Policy S) [DecidablePred K.spawn] [∀ c, DecidablePred (K.stmt c)]
variable [∀ c d, DecidablePred (K.commit c d)] [DecidablePred K.fault]

instance (i : ℕ) (c : S.Call) (loc : Local S) (w : World S) :
    (prog : Prog S S.Res) → Decidable (K.admits i c loc w prog)
  | .stmt tag want _ _ => inferInstanceAs (Decidable (K.stmt c (loc.mark tag (want (loc.view w)) w)))
  | .commit _ => inferInstanceAs (Decidable (∀ t ∈ loc.tx, K.commit (commitOf i c loc t w) w.db w.log))
  | .ret _ | .fail _ | .begin _ | .mint _ | .input _ | .rollback _ => isTrue trivial

instance (s : State S) : (l : Label S) → Decidable (K.ok s l)
  | .spawn _ c => inferInstanceAs (Decidable (K.spawn c))
  | .run i => inferInstanceAs (Decidable (∀ p ∈ s.procs i, K.admits i p.call p.loc s.world p.prog))
  | .fault i => inferInstanceAs (Decidable (∀ p ∈ s.procs i, K.fault p.call))
  | .mint _ _ | .input _ _ | .tick _ => isTrue trivial

variable [DecidableEq S.Lock] [DecidableEq S.Id] {body : S.Call → Prog S S.Res}

def steps (body : S.Call → Prog S S.Res) (s : State S) : List (Label S) → Option (State S)
  | [] => some s
  | l :: ls => if K.ok s l then (step body s l).bind fun s' => steps body s' ls else none

theorem reachable_steps {s₀ s s' : State S} (h : Reachable body K.ok s₀ s) {ls : List (Label S)}
    (hs : K.steps body s ls = some s') : Reachable body K.ok s₀ s' := by
  induction ls generalizing s with
  | nil => cases hs; exact h
  | cons l ls ih =>
    rw [steps, Option.ite_none_right_eq_some] at hs
    obtain ⟨hok, hs⟩ := hs
    obtain ⟨s₁, h₁, hs⟩ := Option.bind_eq_some_iff.mp hs
    exact ih (h.step hok h₁) hs

end Decide

end Policy

def Mark.Seen (m : Mark S) (d : S.Db) (log : List (Commit S)) : Prop :=
  ∃ older, older <:+ log ∧ older.length = m.index ∧ m.db = replay d older

theorem Mark.Seen.mono {m : Mark S} {d : S.Db} {log log' : List (Commit S)} (h : m.Seen d log)
    (hs : log <:+ log') : m.Seen d log' := by
  obtain ⟨older, ho, hlen, hdb⟩ := h
  exact ⟨older, ho.trans hs, hlen, hdb⟩

theorem Mark.mem_since {m : Mark S} {c : Commit S} {older log : List (Commit S)}
    (hs : (c :: older) <:+ log) (hle : m.index ≤ older.length) : c ∈ m.since log := by
  obtain ⟨newer, rfl⟩ := hs
  have hlen : (newer ++ c :: older).length - m.index =
      newer.length + (1 + (older.length - m.index)) := by
    simp only [List.length_append, List.length_cons]
    omega
  rw [Mark.since, hlen, List.take_length_add_append, Nat.add_comm, List.take_succ_cons]
  exact List.mem_append_right _ List.mem_cons_self

theorem Mark.since_append {m : Mark S} {seen : List (Commit S)} (hlen : seen.length = m.index)
    (gap : List (Commit S)) : m.since (gap ++ seen) = gap := by
  rw [Mark.since, List.length_append, hlen, Nat.add_sub_cancel]
  exact List.take_left

structure Mark.Obeys (K : Policy S) (c : S.Call) (d : S.Db) (log : List (Commit S)) (m : Mark S) :
    Prop where
  stmt : K.stmt c m
  now : m.now ≤ m.time
  seen : m.Seen d log

theorem Mark.Obeys.mono {K : Policy S} {c : S.Call} {d : S.Db} {log log' : List (Commit S)}
    {m : Mark S} (h : m.Obeys K c d log) (hs : log <:+ log') : m.Obeys K c d log' :=
  ⟨h.stmt, h.now, h.seen.mono hs⟩

structure Proc.Obeys (K : Policy S) (d : S.Db) (w : World S) (p : Proc S) : Prop where
  spawn : K.spawn p.call
  marks : ∀ m ∈ p.loc.trace, m.Obeys K p.call d w.log
  fault : p.loc.faulted = true → K.fault p.call
  start : ∀ t, p.loc.tx = some t → t.start ≤ w.clock

structure Commit.Obeys (K : Policy S) (d : S.Db) (c : Commit S) (older : List (Commit S)) : Prop where
  spawn : K.spawn c.call
  marks : ∀ m ∈ c.trace, m.Obeys K c.call d older
  commit : K.commit c (replay d older) older
  start : c.start ≤ c.time

structure State.Obeys (K : Policy S) (d : S.Db) (s : State S) : Prop where
  db_eq : s.world.db = replay d s.world.log
  procs : ∀ i p, s.procs i = some p → p.Obeys K d s.world
  log : ∀ c older, (c :: older) <:+ s.world.log → c.Obeys K d older
  authors : ∀ c ∈ s.world.log, ∃ p, s.procs c.proc = some p ∧ p.call = c.call

theorem Local.now_le {s : Local S} {w : World S} {tag : S.Tag} {lock : Option S.Lock}
    (h : ∀ t, s.tx = some t → t.start ≤ w.clock) :
    (s.mark tag lock w).now ≤ (s.mark tag lock w).time := by
  cases ht : s.tx with
  | none => simp [Local.mark, Local.view, ht]
  | some t => simpa [Local.mark, Local.view, ht] using h t ht

namespace State.Obeys

variable {K : Policy S} {d : S.Db} {s : State S} {i : ℕ} {p : Proc S}

theorem move (h : s.Obeys K d) {w : World S} {o : S.Lock → Option ℕ}
    (hdb : w.db = s.world.db) (hlog : w.log = s.world.log) (hclock : w.clock = s.world.clock)
    (hcall : ∀ q, s.procs i = some q → q.call = p.call) (hp : p.Obeys K d s.world) :
    (s.move i p w o).Obeys K d where
  db_eq := by rw [show (s.move i p w o).world = w from rfl, hdb, hlog, h.db_eq]
  procs j q hq := by
    have hsame : ∀ {q : Proc S}, q.Obeys K d s.world → q.Obeys K d w := fun hq =>
      ⟨hq.spawn, hlog ▸ hq.marks, hq.fault, hclock ▸ hq.start⟩
    by_cases hj : j = i
    · subst hj
      have hpq : p = q := by simpa [State.move] using hq
      exact hpq ▸ hsame hp
    · exact hsame (h.procs j q (by simpa [State.move, hj] using hq))
  log := by rw [show (s.move i p w o).world = w from rfl, hlog]; exact h.log
  authors c hc := by
    obtain ⟨q, hq, hqc⟩ := h.authors c (hlog ▸ hc)
    by_cases hi : c.proc = i
    · exact ⟨p, by simp [State.move, hi], (hcall q (hi ▸ hq)).symm.trans hqc⟩
    · exact ⟨q, by simp [State.move, hi, hq], hqc⟩

theorem moveCommit (h : s.Obeys K d) {o : S.Lock → Option ℕ} {c : Commit S}
    (hc : c.Obeys K d s.world.log) (hi : c.proc = i) (hcall : p.call = c.call)
    (hold : ∀ q, s.procs i = some q → q.call = p.call) (hp : p.Obeys K d s.world) :
    (s.move i p (s.world.push c) o).Obeys K d where
  db_eq := by
    change applyAll c.writes s.world.db = applyAll c.writes (replay d s.world.log)
    rw [h.db_eq]
  procs j q hq := by
    have hq := (h.move (p := p) (w := s.world) (o := o) rfl rfl rfl hold hp).procs j q hq
    exact ⟨hq.spawn, fun m hm => (hq.marks m hm).mono (List.suffix_cons _ _), hq.fault, hq.start⟩
  log c' older hs := by
    rcases List.suffix_cons_iff.mp hs with heq | hs
    · obtain ⟨rfl, rfl⟩ := List.cons.inj heq
      exact hc
    · exact h.log c' older hs
  authors c' hc' := by
    rcases List.mem_cons.mp hc' with rfl | hc'
    · exact ⟨p, by simp [State.move, hi], hcall⟩
    · exact (h.move (p := p) (w := s.world) (o := o) rfl rfl rfl hold hp).authors c' hc'

theorem same_call (hp : s.procs i = some p) {c : S.Call} (hc : p.call = c) (q : Proc S)
    (hq : s.procs i = some q) : q.call = c := by
  cases hp.symm.trans hq
  exact hc

variable [DecidableEq S.Lock] [DecidableEq S.Id] {body : S.Call → Prog S S.Res}

theorem step (h : s.Obeys K d) {l : Label S} (hok : K.ok s l) {s' : State S}
    (hs : Transactions.step body s l = some s') : s'.Obeys K d := by
  cases stepped_of_step hs with
  | spawn hi =>
    exact h.move rfl rfl rfl (fun q hq => by cases hi.symm.trans hq) ⟨hok, nofun, nofun, nofun⟩
  | begin hp =>
    have hpo := h.procs _ _ hp
    refine h.move rfl rfl rfl (same_call hp rfl) ⟨hpo.spawn, hpo.marks, hpo.fault, fun t ht => ?_⟩
    cases ht
    exact Nat.le_refl _
  | stmt hp =>
    have hpo := h.procs _ _ hp
    refine h.move rfl rfl rfl (same_call hp rfl) ⟨hpo.spawn, fun m hm => ?_, hpo.fault, fun t ht => ?_⟩
    · rcases List.mem_cons.mp hm with rfl | hm
      · exact ⟨hok _ hp, Local.now_le hpo.start, s.world.log, List.suffix_refl _, rfl, h.db_eq⟩
      · exact hpo.marks m hm
    · obtain ⟨t₀, ht₀, rfl⟩ := Option.map_eq_some_iff.mp ht
      exact hpo.start t₀ ht₀
  | @commit i c loc k t hp ht =>
    have hpo := h.procs _ _ hp
    have hcommit : K.commit (commitOf i c loc t s.world) (replay d s.world.log) s.world.log :=
      h.db_eq ▸ hok _ hp t ht
    exact h.moveCommit ⟨hpo.spawn, hpo.marks, hcommit, hpo.start t ht⟩ rfl rfl (same_call hp rfl)
      ⟨hpo.spawn, hpo.marks, hpo.fault, nofun⟩
  | rollback hp =>
    have hpo := h.procs _ _ hp
    exact h.move rfl rfl rfl (same_call hp rfl) ⟨hpo.spawn, hpo.marks, hpo.fault, nofun⟩
  | failStmt hp =>
    have hpo := h.procs _ _ hp
    have hfault := hok _ hp
    exact h.move rfl rfl rfl (same_call hp rfl) ⟨hpo.spawn, hpo.marks, fun _ => hfault, hpo.start⟩
  | failCommit hp =>
    have hpo := h.procs _ _ hp
    have hfault := hok _ hp
    exact h.move rfl rfl rfl (same_call hp rfl) ⟨hpo.spawn, hpo.marks, fun _ => hfault, nofun⟩
  | mint hp =>
    have hpo := h.procs _ _ hp
    exact h.move rfl rfl rfl (same_call hp rfl) ⟨hpo.spawn, hpo.marks, hpo.fault, hpo.start⟩
  | input hp =>
    have hpo := h.procs _ _ hp
    exact h.move rfl rfl rfl (same_call hp rfl) ⟨hpo.spawn, hpo.marks, hpo.fault, hpo.start⟩
  | tick n =>
    refine ⟨h.db_eq, fun i p hp => ?_, h.log, h.authors⟩
    have hpo := h.procs i p hp
    exact ⟨hpo.spawn, hpo.marks, hpo.fault, fun t ht => Nat.le_add_right_of_le (hpo.start t ht)⟩

theorem reachable {used : List S.Id} (h : Reachable body K.ok (initial d used) s) : s.Obeys K d := by
  induction h with
  | refl =>
    refine ⟨rfl, nofun, fun c older hs => ?_, nofun⟩
    cases List.eq_nil_of_suffix_nil hs
  | step _ hok hs ih => exact ih.step hok hs

end State.Obeys

end JitoGame.Transactions
