import JitoGame.RoundScheduler

namespace JitoGame.RoundScheduler

open Redis Traces

variable {H : Type} [DecidableEq H] {cfg : Config} {s s' u v : State H} {e : Event H}
variable {es : List (Event H)} {t t' : ℕ} {h h' : H} {x x' : Tick H} {i : Instance}

/-! The ticks of one instance. -/

def Running (s : State H) (t : ℕ) (h : H) : Prop := ∃ x, s.ticks t = some x ∧ x.holderId = h ∧ x.running

def State.flight (s : State H) (h : H) : Bool := (s.instances h).tickInFlight

structure Apart (s : State H) : Prop where
  flight : ∀ h, s.flight h = true ↔ ∃ t, Running s t h
  unique : ∀ t t' h, Running s t h → Running s t' h → t = t'

omit [DecidableEq H] in
theorem running_setTick : Running (s.setTick t x) t' h ↔
    (t' = t ∧ x.holderId = h ∧ x.running) ∨ (t' ≠ t ∧ Running s t' h) := by
  by_cases ht : t' = t
  · subst ht
    simp [Running, State.setTick]
  · simp [Running, State.setTick, ht]

theorem running_setInstance : Running (s.setInstance h' i) t h ↔ Running s t h := Iff.rfl

omit [DecidableEq H] in
theorem running_iff (ht : s.ticks t = some x) : Running s t h ↔ x.holderId = h ∧ x.running := by
  simp [Running, ht]

theorem flight_setInstance :
    (s.setInstance h' i).flight h = if h = h' then i.tickInFlight else s.flight h := by
  by_cases hh : h = h'
  · simp [State.flight, State.setInstance, hh]
  · simp [State.flight, State.setInstance, hh]

omit [DecidableEq H] in
theorem Apart.same (hs : Apart s) (hr : ∀ t h, Running s' t h ↔ Running s t h)
    (hf : ∀ h, s'.flight h = s.flight h) : Apart s' where
  flight h := by simp only [hf, hr, hs.flight]
  unique t t' h ht ht' := hs.unique t t' h ((hr _ _).mp ht) ((hr _ _).mp ht')

omit [DecidableEq H] in
theorem Apart.store (hs : Apart s) {store : Store String H} : Apart { s with store } :=
  hs.same (fun _ _ => Iff.rfl) fun _ => rfl

theorem Apart.begins (hs : Apart s) (hidle : s.flight h = false)
    (hr : ∀ t' h', Running s' t' h' ↔ (t' = t ∧ h' = h) ∨ Running s t' h')
    (hf : ∀ h', s'.flight h' = if h' = h then true else s.flight h') : Apart s' := by
  have hnone (t' : ℕ) : ¬ Running s t' h := fun ht => by
    rw [(hs.flight h).mpr ⟨t', ht⟩] at hidle
    cases hidle
  constructor
  · intro h'
    by_cases hh : h' = h
    · simp [hf, hr, hh]
    · simp [hf, hr, hh, hs.flight]
  · intro t₁ t₂ h' h₁ h₂
    rcases (hr _ _).mp h₁ with ⟨rfl, rfl⟩ | h₁ <;> rcases (hr _ _).mp h₂ with ⟨rfl, hh⟩ | h₂
    · rfl
    · exact absurd h₂ (hnone t₂)
    · exact absurd (hh ▸ h₁) (hnone t₁)
    · exact hs.unique t₁ t₂ h' h₁ h₂

theorem Apart.ends (hs : Apart s) (ht : Running s t h)
    (hr : ∀ t' h', Running s' t' h' ↔ t' ≠ t ∧ Running s t' h')
    (hf : ∀ h', s'.flight h' = if h' = h then false else s.flight h') : Apart s' where
  flight h' := by
    by_cases hh : h' = h
    · subst hh
      simp only [hf, ↓reduceIte, Bool.false_eq_true, false_iff, not_exists, hr, not_and]
      exact fun t' hne ht' => hne (hs.unique t' t h' ht' ht)
    · simp only [hf, hh, ↓reduceIte, hs.flight, hr]
      constructor
      · rintro ⟨t', ht'⟩
        refine ⟨t', ?_, ht'⟩
        rintro rfl
        obtain ⟨x, hx, hxh, -⟩ := ht
        obtain ⟨y, hy, hyh, -⟩ := ht'
        cases hx.symm.trans hy
        exact hh (hyh.symm.trans hxh)
      · rintro ⟨t', -, ht'⟩
        exact ⟨t', ht'⟩
  unique t₁ t₂ h' h₁ h₂ := hs.unique t₁ t₂ h' ((hr _ _).mp h₁).2 ((hr _ _).mp h₂).2

theorem Apart.finish (hs : Apart s) (ht : s.ticks t = some x) (hx : x.running) {c : Option Command}
    {b : Bool} : Apart (finish s t { x with sent := c } b) := by
  refine hs.ends (t := t) (h := x.holderId) ⟨x, ht, rfl, hx⟩ (fun t' h' => ?_) fun h' => ?_
  · simp [RoundScheduler.finish, running_setTick, running_setInstance, Tick.running]
  · exact flight_setInstance

theorem Apart.stays (hs : Apart s) (ht : s.ticks t = some x) (hx : x.running)
    (hh : x'.holderId = x.holderId) (hx' : x'.running) (hi : i.tickInFlight = true) :
    Apart ((s.setInstance x.holderId i).setTick t x') := by
  refine hs.same (fun t' h' => ?_) fun h' => ?_
  · by_cases htt : t' = t
    · subst htt
      simp [running_setTick, running_iff ht, hh, hx, hx']
    · simp [running_setTick, running_setInstance, htt]
  · apply flight_setInstance.trans
    split
    · rename_i heq
      rw [heq, hi, (hs.flight _).mpr ⟨t, x, ht, rfl, hx⟩]
    · rfl

theorem setInstance_self : s.setInstance h (s.instances h) = s := by
  simp [State.setInstance]

theorem Apart.goes (hs : Apart s) (ht : s.ticks t = some x) (hx : x.running)
    (hh : x'.holderId = x.holderId) (hx' : x'.running) : Apart (s.setTick t x') := by
  have hflight := (hs.flight _).mpr ⟨t, x, ht, rfl, hx⟩
  have hstay := hs.stays ht hx hh hx' hflight
  rwa [setInstance_self] at hstay

omit [DecidableEq H] in
theorem Apart.over (hs : Apart s) (ht : ∀ h, ¬ Running s t h) (hx : ¬ x.running) :
    Apart (s.setTick t x) := by
  refine hs.same (fun t' h' => ?_) fun h' => rfl
  by_cases htt : t' = t
  · subst htt
    simp [running_setTick, hx, ht]
  · simp [running_setTick, htt]

omit [DecidableEq H] in
theorem running_of_position (hp : x.position = .ensureLeader ∨ ∃ gs, x.position = .reconcile gs) :
    x.running := by
  rcases hp with hp | ⟨gs, hp⟩ <;> simp [Tick.running, hp]

theorem apart_keeps : Preserves (step (H := H) cfg) Apart := by
  intro s e s' hstep hs
  cases step_cases hstep with
  | skip ht hi =>
    refine hs.over (fun h => ?_) (by simp [Tick.running])
    simp [Running, ht]
  | @begin t h c ht hi hc =>
    refine hs.begins (t := t) (h := h) hi (fun t' h' => ?_) fun h' => flight_setInstance
    have hnew : ¬ Running s t h' := by simp [Running, ht]
    by_cases htt : t' = t
    · subst htt
      rw [running_setTick]
      simp [Tick.running, hnew, eq_comm]
    · simp [running_setTick, running_setInstance, htt]
  | @execute t x c ht hc =>
    have hs' : Apart { s with store := (c.execute cfg x.holderId s.store).1 } := hs.store
    by_cases hx : x.running
    · exact hs'.goes ht hx rfl hx
    · exact hs'.over (fun h => by simp [Running, ht, hx]) hx
  | @reply t x c r ht hp hc hr =>
    have hx := running_of_position (.inl hp)
    cases c <;> cases r
    · exact hs.finish ht hx
    · exact hs.stays ht hx rfl (running_of_position (.inr ⟨_, rfl⟩)) rfl
    · exact hs.stays ht hx rfl (running_of_position (.inl hp)) rfl
    · exact hs.stays ht hx rfl (running_of_position (.inr ⟨_, rfl⟩)) rfl
  | fail ht hp => exact hs.finish ht (running_of_position (.inl hp))
  | next ht hp =>
    exact hs.goes ht (running_of_position (.inr ⟨_, hp⟩)) rfl (running_of_position (.inr ⟨_, rfl⟩))
  | last ht hp => exact hs.finish ht (running_of_position (.inr ⟨_, hp⟩))
  | free he hk => exact hs.store

omit [DecidableEq H] in
theorem apart_start : Apart (start : State H) where
  flight h := by simp [start, State.flight, Running]
  unique t t' h ht := by
    obtain ⟨x, hx, -⟩ := ht
    cases hx

/-! What a grant says about the key. -/

def Command.found (h : H) : Command → Option H
  | .acquireLeaderLock => none
  | .renewLeaderLock => some h

structure Grants (cfg : Config) (s : State H) (t : ℕ) (h : H) (e : Event H) (s' : State H) :
    Prop where
  event : e = .execute t
  tick : ∃ x c, s.ticks t = some x ∧ x.holderId = h ∧ x.running ∧ x.sent = some c ∧
    s.holder cfg = c.found h
  holder : s'.holder cfg = some h

theorem holder_kept (hstep : step cfg s e = some s') (hk : s.holder cfg = some h)
    (he : ¬ (e = .expire ∨ e = .delete)) : s'.holder cfg = some h := by
  cases step_cases hstep with
  | @execute t x c ht hc =>
    cases c with
    | acquireLeaderLock =>
      change holderOf cfg _ = _
      rw [acquire_held cfg hk]
      exact hk
    | renewLeaderLock => exact (renew_spec cfg x.holderId s.store).1.trans hk
  | @reply t x c r ht hp hc hr => cases c <;> cases r <;> exact hk
  | free he' => exact absurd he' he
  | _ => exact hk

def Ungranted (t : ℕ) (s : State H) : Prop :=
  ∀ x, s.ticks t = some x → (∀ gs, x.position ≠ .reconcile gs) ∧ (x.running → x.reply ≠ some true)

omit [DecidableEq H] in
theorem Ungranted.setTick (hs : Ungranted t s) (hx : t' = t →
    (∀ gs, x.position ≠ .reconcile gs) ∧ (x.running → x.reply ≠ some true)) :
    Ungranted t (s.setTick t' x) := by
  intro y hy
  by_cases ht : t = t'
  · subst ht
    cases (Function.update_self ..).symm.trans hy
    exact hx rfl
  · exact hs y ((Function.update_of_ne ht ..).symm.trans hy)

theorem ungranted_kept (hstep : step cfg s e = some s') (hs : Ungranted t s)
    (he : ¬ ∃ h, Grants cfg s t h e s') : Ungranted t s' := by
  cases step_cases hstep with
  | skip ht hi => exact hs.setTick fun _ => by simp [Tick.running]
  | begin ht hi hc => exact hs.setTick fun _ => by simp
  | @execute t' x c ht hc =>
    apply Ungranted.setTick (s := { s with store := _ }) hs
    intro htt
    subst htt
    refine ⟨(hs x ht).1, fun hx hr => he ⟨x.holderId, rfl, ⟨x, c, ht, rfl, hx, hc, ?_⟩, ?_⟩⟩
    · cases c with
      | acquireLeaderLock =>
        cases hk : s.holder cfg with
        | none => rfl
        | some j =>
          rw [acquire_held cfg hk] at hr
          cases hr
      | renewLeaderLock => exact (renew_spec cfg x.holderId s.store).2.mp (Option.some.inj hr)
    · cases c with
      | acquireLeaderLock =>
        cases hk : s.holder cfg with
        | none => exact (acquire_free cfg hk).1
        | some j =>
          rw [acquire_held cfg hk] at hr
          cases hr
      | renewLeaderLock =>
        obtain ⟨hkeep, hreply⟩ := renew_spec cfg x.holderId s.store
        exact hkeep.trans (hreply.mp (Option.some.inj hr))
  | @reply t' x c r ht hp hc hr =>
    cases r with
    | false =>
      cases c with
      | acquireLeaderLock =>
        apply Ungranted.setTick (s := s.setInstance _ _) hs
        intro _
        simp [Tick.running]
      | renewLeaderLock =>
        apply Ungranted.setTick (s := s.setInstance _ _) hs
        intro _
        simp [hp]
    | true =>
      have hne : t' ≠ t := fun htt => (hs x (htt ▸ ht)).2 (running_of_position (.inl hp)) hr
      cases c <;> exact Ungranted.setTick (s := s.setInstance _ _) hs fun htt => absurd htt hne
  | @fail t' x ht hp =>
    exact Ungranted.setTick (s := s.setInstance _ _) hs fun _ => by simp [Tick.running]
  | @next t' x threw gs gs' ht hp =>
    exact hs.setTick fun htt => absurd hp ((hs x (htt ▸ ht)).1 gs)
  | @last t' x threw gs ht hp =>
    exact Ungranted.setTick (s := s.setInstance _ _) hs fun htt => absurd hp ((hs x (htt ▸ ht)).1 gs)
  | free he' hk => exact hs

def Owned (t : ℕ) (h : H) (s : State H) : Prop := ∃ x, s.ticks t = some x ∧ x.holderId = h

omit [DecidableEq H] in
theorem Owned.setTick (hs : Owned t h s) (hx : ∀ y, s.ticks t' = some y → x.holderId = y.holderId) :
    Owned t h (s.setTick t' x) := by
  obtain ⟨y, hy, hyh⟩ := hs
  by_cases ht : t = t'
  · subst ht
    exact ⟨x, Function.update_self .., (hx y hy).trans hyh⟩
  · exact ⟨y, (Function.update_of_ne ht ..).trans hy, hyh⟩

theorem owned_keeps : Preserves (step cfg) (Owned t h) := by
  intro s e s' hstep hs
  have hsame {t' : ℕ} {x x' : Tick H} (ht : s.ticks t' = some x) (hx : x'.holderId = x.holderId) :
      ∀ y, s.ticks t' = some y → x'.holderId = y.holderId := by
    intro y hy
    cases ht.symm.trans hy
    exact hx
  cases step_cases hstep with
  | skip ht => exact hs.setTick fun y hy => by cases ht.symm.trans hy
  | begin ht =>
    exact Owned.setTick (s := s.setInstance _ _) hs fun y hy => by cases ht.symm.trans hy
  | execute ht hc => exact Owned.setTick (s := { s with store := _ }) hs (hsame ht rfl)
  | @reply t x c r ht hp hc hr =>
    cases c <;> cases r <;> exact Owned.setTick (s := s.setInstance _ _) hs (hsame ht rfl)
  | fail ht => exact Owned.setTick (s := s.setInstance _ _) hs (hsame ht rfl)
  | next ht => exact hs.setTick (hsame ht rfl)
  | last ht => exact Owned.setTick (s := s.setInstance _ _) hs (hsame ht rfl)
  | free => exact hs

theorem granted_of_reconcile (hr : run (step cfg) start es = some s) (ht : s.ticks t = some x)
    {gs : List GameId} (hp : x.position = .reconcile gs) :
    ∃ pre e post u v, es = pre ++ e :: post ∧ run (step cfg) start pre = some u ∧
      step cfg u e = some v ∧ Grants cfg u t x.holderId e v := by
  have hkeep : ∀ (s : State H) e s', True → step cfg s e = some s' → Ungranted t s →
      (¬ ∃ h v, step cfg s e = some v ∧ Grants cfg s t h e v) → Ungranted t s' := by
    intro s e s' _ hstep hs hb
    apply ungranted_kept hstep hs
    rintro ⟨h, hg⟩
    exact hb ⟨h, s', hstep, hg⟩
  obtain ⟨pre, e, post, u, heq, hu, h, v, hv, hg⟩ := exists_between (J := fun _ => True)
    (Q := Ungranted t) (fun _ _ _ _ h => h) hkeep trivial hr (fun y hy => by cases hy)
    (fun hq => (hq x ht).1 gs hp)
  obtain ⟨y, c, hy, hyh, -⟩ := hg.tick
  have hrest : run (step cfg) u (e :: post) = some s := by
    rw [heq] at hr
    obtain ⟨m, hm, hrest⟩ := run_append.mp hr
    cases hu.symm.trans hm
    exact hrest
  obtain ⟨x', hx', hxh⟩ := owned_keeps.run hrest ⟨y, hy, hyh⟩
  cases ht.symm.trans hx'
  exact ⟨pre, e, post, u, v, heq, hu, hv, hxh ▸ hg⟩

theorem gone_between {mid : List (Event H)} (hg : s.holder cfg = some h)
    (hmid : run (step cfg) s mid = some u) (hu : u.holder cfg ≠ some h) :
    .expire ∈ mid ∨ .delete ∈ mid := by
  obtain ⟨pre, e, post, -, rfl, -, he⟩ := exists_between (J := fun _ => True)
    (Q := fun s => s.holder cfg = some h) (B := fun _ e => e = .expire ∨ e = .delete)
    (fun _ _ _ _ h => h) (fun s e s' _ hstep hs hb => holder_kept hstep hs hb) trivial hmid hg hu
  rcases he with rfl | rfl
  · exact .inl (by simp)
  · exact .inr (by simp)

/-- A tick reconciles only after Redis has found or set its holder's id in that same tick; between
the grants of two instances the key was gone; the ticks of one instance do not overlap. -/
theorem grants_exclude (hr : run (step cfg) start es = some s) :
    (∀ t x gs, s.ticks t = some x → x.position = .reconcile gs →
      ∃ pre e post u v, es = pre ++ e :: post ∧ run (step cfg) start pre = some u ∧
        step cfg u e = some v ∧ Grants cfg u t x.holderId e v) ∧
    (∀ pre e mid e' post t t' h h' u v u' v', es = pre ++ e :: (mid ++ e' :: post) →
      run (step cfg) start pre = some u → step cfg u e = some v → Grants cfg u t h e v →
      run (step cfg) v mid = some u' → step cfg u' e' = some v' → Grants cfg u' t' h' e' v' →
      h ≠ h' → .expire ∈ mid ∨ .delete ∈ mid) ∧
    (∀ h, (s.instances h).tickInFlight = true ↔ ∃ t, Running s t h) ∧
    (∀ t t' h, Running s t h → Running s t' h → t = t') := by
  have hapart := apart_keeps.run hr apart_start
  refine ⟨fun t x gs ht hp => granted_of_reconcile hr ht hp, ?_, hapart.flight, hapart.unique⟩
  intro pre e mid e' post t t' h h' u v u' v' _ _ _ hg hmid _ hg' hne
  apply gone_between hg.holder hmid
  obtain ⟨x, c, -, -, -, -, hbefore⟩ := hg'.tick
  rw [hbefore]
  cases c with
  | acquireLeaderLock => exact (Option.some_ne_none h).symm
  | renewLeaderLock => exact fun heq => hne (Option.some.inj heq).symm

def engineConfig : Config := ⟨"development", 5000, by decide⟩

def handover : List (Event ℕ) :=
  [.tick 0 1, .execute 0, .reply 0, .tick 1 2, .execute 1, .reply 1, .expire, .tick 2 2, .execute 2,
    .reply 2]

theorem handover_granted : ∃ s x, run (step engineConfig) start handover = some s ∧
    s.ticks 2 = some x ∧ x.position = .reconcile activeGameIds ∧
    ∃ pre e post u v, handover = pre ++ e :: post ∧ run (step engineConfig) start pre = some u ∧
      step engineConfig u e = some v ∧ Grants engineConfig u 2 x.holderId e v := by
  have hr : run (step engineConfig) start handover = some (Option.get _ rfl) :=
    (Option.some_get _).symm
  exact ⟨_, _, hr, rfl, rfl, (grants_exclude hr).1 2 _ activeGameIds rfl rfl⟩

end JitoGame.RoundScheduler
