import JitoGame.Transactions.Run

namespace JitoGame.Transactions

variable {S : Schema} {s s' s₀ : State S}

structure Extends (s s' : State S) : Prop where
  log : s.world.log <:+ s'.world.log
  trace : ∀ i p', s'.procs i = some p' → ∀ m ∈ p'.loc.trace,
    m.index = s.world.log.length ∨ ∃ p, s.procs i = some p ∧ m ∈ p.loc.trace

theorem Extends.move {i : ℕ} {p : Proc S} {w : World S} {o : S.Lock → Option ℕ}
    (hlog : s.world.log <:+ w.log) (hp : ∀ m ∈ p.loc.trace,
      m.index = s.world.log.length ∨ ∃ q, s.procs i = some q ∧ m ∈ q.loc.trace) :
    Extends s (s.move i p w o) := by
  refine ⟨hlog, fun j p' hp' m hm => ?_⟩
  by_cases hj : j = i
  · subst hj
    obtain rfl : p = p' := by simpa [State.move] using hp'
    exact hp m hm
  · exact .inr ⟨p', by simpa [State.move, hj] using hp', hm⟩

theorem Extends.quiet {i : ℕ} {p q : Proc S} {w : World S} {o : S.Lock → Option ℕ}
    (hp : s.procs i = some p) (hlog : w.log = s.world.log) (ht : q.loc.trace = p.loc.trace) :
    Extends s (s.move i q w o) :=
  .move (hlog ▸ List.suffix_refl _) fun _ hm => .inr ⟨p, hp, ht ▸ hm⟩

variable [DecidableEq S.Lock] [DecidableEq S.Id] {body : S.Call → Prog S S.Res}
variable {ok : State S → Label S → Prop}

theorem step_extends {l : Label S} (hs : step body s l = some s') : Extends s s' := by
  cases stepped_of_step hs with
  | spawn => exact .move (List.suffix_refl _) fun m hm => by cases hm
  | begin hp => exact .quiet hp rfl rfl
  | stmt hp =>
    refine .move (List.suffix_refl _) fun m hm => ?_
    rcases List.mem_cons.mp hm with rfl | hm
    · exact .inl rfl
    · exact .inr ⟨_, hp, hm⟩
  | commit hp => exact .move (List.suffix_cons _ _) fun m hm => .inr ⟨_, hp, hm⟩
  | rollback hp => exact .quiet hp rfl rfl
  | failStmt hp => exact .quiet hp rfl rfl
  | failCommit hp => exact .quiet hp rfl rfl
  | mint hp => exact .quiet hp rfl rfl
  | input hp => exact .quiet hp rfl rfl
  | tick d => exact ⟨List.suffix_refl _, fun i p hp m hm => .inr ⟨p, hp, hm⟩⟩

namespace Reachable

theorem log_suffix (h : Reachable body ok s₀ s) : s₀.world.log <:+ s.world.log := by
  induction h with
  | refl => exact List.suffix_refl _
  | step _ _ hs ih => exact ih.trans (step_extends hs).log

theorem index_le (h : Reachable body ok s₀ s) {i : ℕ} (hi : s₀.procs i = none) {p : Proc S}
    (hp : s.procs i = some p) {m : Mark S} (hm : m ∈ p.loc.trace) :
    s₀.world.log.length ≤ m.index := by
  induction h generalizing p with
  | refl => cases hi.symm.trans hp
  | step hreach _ hs ih =>
    rcases (step_extends hs).trace i p hp m hm with hm | ⟨q, hq, hm⟩
    · rw [hm]
      exact hreach.log_suffix.length_le
    · exact ih hq hm

end Reachable

structure Since (n i : ℕ) (s : State S) : Prop where
  clock : n ≤ s.world.clock
  start : ∀ p, s.procs i = some p → ∀ t, p.loc.tx = some t → n ≤ t.start ∧ t.start ≤ s.world.clock
  marks : ∀ p, s.procs i = some p → ∀ m ∈ p.loc.trace, n ≤ m.now ∧ m.now ≤ s.world.clock
  commits : ∀ c ∈ s.world.log, c.proc = i → n ≤ c.start ∧ c.start ≤ s.world.clock

namespace Since

variable {n i j : ℕ} {p q : Proc S}

omit [DecidableEq S.Lock] [DecidableEq S.Id] in
theorem move (h : Since n i s) {w : World S} {o : S.Lock → Option ℕ} (hclock : w.clock = s.world.clock)
    (hlog : ∀ c ∈ w.log, c.proc = i → c ∈ s.world.log ∨ n ≤ c.start ∧ c.start ≤ w.clock)
    (hstart : j = i → ∀ t, q.loc.tx = some t → n ≤ t.start ∧ t.start ≤ w.clock)
    (hmarks : j = i → ∀ m ∈ q.loc.trace, n ≤ m.now ∧ m.now ≤ w.clock) : Since n i (s.move j q w o) := by
  have same {p : Proc S} (hp : (s.move j q w o).procs i = some p) : j = i ∧ q = p ∨ s.procs i = some p := by
    by_cases hj : j = i
    · subst hj
      exact .inl ⟨rfl, by simpa [State.move] using hp⟩
    · exact .inr (by simpa [State.move, Ne.symm hj] using hp)
  refine ⟨hclock ▸ h.clock, fun p hp t ht => ?_, fun p hp m hm => ?_, fun c hc hi => ?_⟩
  · rcases same hp with ⟨hj, rfl⟩ | hp
    · exact hstart hj t ht
    · exact hclock ▸ h.start p hp t ht
  · rcases same hp with ⟨hj, rfl⟩ | hp
    · exact hmarks hj m hm
    · exact hclock ▸ h.marks p hp m hm
  · rcases hlog c hc hi with hc | hc
    · exact hclock ▸ h.commits c hc hi
    · exact hc

omit [DecidableEq S.Lock] [DecidableEq S.Id] in
theorem quiet (h : Since n i s) (hp : s.procs j = some p) {w : World S} {o : S.Lock → Option ℕ}
    (hclock : w.clock = s.world.clock) (hlog : w.log = s.world.log)
    (htx : ∀ t, q.loc.tx = some t → p.loc.tx = some t) (htrace : q.loc.trace = p.loc.trace) :
    Since n i (s.move j q w o) := by
  refine h.move hclock (fun c hc _ => .inl (hlog ▸ hc)) (fun hj t ht => ?_) fun hj m hm => ?_
  · exact hclock ▸ h.start p (hj ▸ hp) t (htx t ht)
  · exact hclock ▸ h.marks p (hj ▸ hp) m (htrace ▸ hm)

theorem step (h : Since n i s) {l : Label S} (hs : Transactions.step body s l = some s') :
    Since n i s' := by
  cases stepped_of_step hs with
  | spawn hi =>
    exact h.move rfl (fun c hc _ => .inl hc) (fun _ t ht => by cases ht) fun _ m hm => by cases hm
  | begin hp =>
    refine h.move rfl (fun c hc _ => .inl hc) (fun _ t ht => ?_) fun hj => ?_
    · cases ht
      exact ⟨h.clock, Nat.le_refl _⟩
    · subst hj
      have hmarks := h.marks _ hp
      exact hmarks
  | @stmt j c loc tag want effect k hp =>
    refine h.move rfl (fun c hc _ => .inl hc) (fun hj t ht => ?_) fun hj m hm => ?_
    · obtain ⟨t₀, ht₀, rfl⟩ := Option.map_eq_some_iff.mp ht
      exact h.start _ (hj ▸ hp) t₀ ht₀
    · rcases List.mem_cons.mp hm with rfl | hm
      · cases htx : loc.tx with
        | none => simpa [Local.mark, Local.view, htx] using h.clock
        | some t => simpa [Local.mark, Local.view, htx] using h.start _ (hj ▸ hp) t htx
      · exact h.marks _ (hj ▸ hp) m hm
  | @commit j c loc k t hp ht =>
    refine h.move rfl (fun c' hc hi => ?_) (fun _ t ht => by cases ht) fun hj => ?_
    · rcases List.mem_cons.mp hc with rfl | hc
      · have hi : j = i := hi
        exact .inr (h.start _ (hi ▸ hp) _ ht)
      · exact .inl hc
    · subst hj
      have hmarks := h.marks _ hp
      exact hmarks
  | rollback hp => exact h.quiet hp rfl rfl (fun t ht => by cases ht) rfl
  | failStmt hp => exact h.quiet hp rfl rfl (fun _ ht => ht) rfl
  | failCommit hp => exact h.quiet hp rfl rfl (fun t ht => by cases ht) rfl
  | mint hp => exact h.quiet hp rfl rfl (fun _ ht => ht) rfl
  | input hp => exact h.quiet hp rfl rfl (fun _ ht => ht) rfl
  | tick d =>
    have hle : s.world.clock ≤ s.world.clock + d := Nat.le_add_right _ _
    refine ⟨Nat.le_trans h.clock hle, fun p hp t ht => ?_, fun p hp m hm => ?_, fun c hc hi => ?_⟩
    · exact (h.start p hp t ht).imp_right fun h => Nat.le_trans h hle
    · exact (h.marks p hp m hm).imp_right fun h => Nat.le_trans h hle
    · exact (h.commits c hc hi).imp_right fun h => Nat.le_trans h hle

theorem reachable (h : Reachable body ok s₀ s) {i : ℕ} (hi : s₀.procs i = none)
    (hquiet : own i s₀.world.log = []) : Since s₀.world.clock i s := by
  induction h with
  | refl =>
    refine ⟨Nat.le_refl _, fun p hp => ?_, fun p hp => ?_, fun c hc hci => ?_⟩
    · cases hi.symm.trans hp
    · cases hi.symm.trans hp
    have hmem : c ∈ own i s₀.world.log := mem_own.mpr ⟨hc, hci⟩
    rw [hquiet] at hmem
    cases hmem
  | step _ _ hs ih => exact ih.step hs

end Since

theorem Run.later {known : S.Db → S.Id → Prop} {K : Policy S} {base : S.Db}
    (h : Run body known K base s₀) (hs : Reachable body K.ok s₀ s) : Run body known K base s := by
  induction hs with
  | refl => exact h
  | step _ hok hstep ih => exact ih.step hok hstep

theorem Run.seen_later {known : S.Db → S.Id → Prop} {K : Policy S} {base : S.Db}
    (h : Run body known K base s₀) (hs : Reachable body K.ok s₀ s) {i : ℕ} (hi : s₀.procs i = none)
    {p : Proc S} (hp : s.procs i = some p) {m : Mark S} (hm : m ∈ p.loc.trace) :
    ∃ log, s₀.world.log <:+ log ∧ log <:+ s.world.log ∧ m.db = replay base log := by
  obtain ⟨log, hlog, hlen, hdb⟩ := (((h.later hs).obeys.procs i p hp).marks m hm).seen
  have hle : s₀.world.log.length ≤ log.length := hlen ▸ hs.index_le hi hp hm
  exact ⟨log, List.suffix_of_suffix_length_le hs.log_suffix hlog hle, hlog, hdb⟩

end JitoGame.Transactions
