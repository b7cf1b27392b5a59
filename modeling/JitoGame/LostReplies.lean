import JitoGame.Leadership

namespace JitoGame.RoundScheduler

open Redis Traces

variable {H : Type} [DecidableEq H] {cfg : Config} {s s' : State H} {e : Event H}
variable {es : List (Event H)} {t t' : ℕ} {h : H} {x : Tick H}

/-! The next call of `ensureLeader`. -/

def Event.Aside (t : ℕ) (e : Event H) : Prop :=
  e ≠ .expire ∧ e ≠ .delete ∧ e ≠ .execute t ∧ e ≠ .reply t ∧ e ≠ .fail t

def EnsuresLeader (cfg : Config) (s : State H) (t : ℕ) (h : H) : Prop :=
  (∃ s', run (step cfg) s [.tick t h, .execute t, .reply t] = some s') ∧
  ∀ es₁ es₂ s', (∀ e ∈ es₁ ++ es₂, e.Aside t) →
    run (step cfg) s (.tick t h :: (es₁ ++ .execute t :: (es₂ ++ [.reply t]))) = some s' →
    ∃ x, s'.ticks t = some x ∧ x.position = .reconcile activeGameIds

theorem tick_kept (hstep : step cfg s e = some s') (ht : s.ticks t = some x)
    (hp : x.position = .ensureLeader) (he : e.Aside t) : s'.ticks t = some x := by
  obtain ⟨-, -, hexec, hreply, hfail⟩ := he
  have hother {u : State H} {t' : ℕ} {y : Tick H} (hu : u.ticks = s.ticks) (htt : t ≠ t') :
      (u.setTick t' y).ticks t = some x :=
    (Function.update_of_ne htt ..).trans ((congrFun hu t).trans ht)
  cases step_cases hstep with
  | @skip t' _ ht' =>
    apply hother rfl
    rintro rfl
    cases ht.symm.trans ht'
  | @begin t' _ _ ht' =>
    apply hother rfl
    rintro rfl
    cases ht.symm.trans ht'
  | @execute t' => exact hother rfl fun htt => hexec (by rw [htt])
  | @reply t' y c r =>
    have htt : t ≠ t' := fun htt => hreply (by rw [htt])
    cases c <;> cases r <;> exact hother rfl htt
  | @fail t' => exact hother rfl fun htt => hfail (by rw [htt])
  | @next t' y threw gs gs' ht' hp' =>
    apply hother rfl
    rintro rfl
    cases ht.symm.trans ht'
    cases hp.symm.trans hp'
  | @last t' y threw gs ht' hp' =>
    apply hother rfl
    rintro rfl
    cases ht.symm.trans ht'
    cases hp.symm.trans hp'
  | free => exact ht

theorem aside_keeps (he : ∀ e ∈ es, e.Aside t) (hr : run (step cfg) s es = some s')
    (ht : s.ticks t = some x) (hp : x.position = .ensureLeader) (hk : s.holder cfg = some h) :
    s'.ticks t = some x ∧ s'.holder cfg = some h := by
  induction es generalizing s with
  | nil => cases hr; exact ⟨ht, hk⟩
  | cons e es ih =>
    obtain ⟨m, hm, hr⟩ := run_cons.mp hr
    have hea := he e (by simp)
    apply ih (fun e' he' => he e' (by simp [he'])) hr (tick_kept hm ht hp hea)
    exact holder_kept hm hk fun hf => hf.elim hea.1 hea.2.1

theorem tick_begins (cfg : Config) (hf : s.flight h = false) (ht : s.ticks t = none) :
    ∃ m, step cfg s (.tick t h) = some m ∧ m.holder cfg = s.holder cfg ∧
      m.ticks t = some ⟨h, .ensureLeader,
        some (if (s.instances h).isLeader then .renewLeaderLock else .acquireLeaderLock), none⟩ := by
  have hf' : (s.instances h).tickInFlight = false := hf
  simp only [step, ht, hf']
  exact ⟨_, rfl, rfl, Function.update_self ..⟩

theorem execute_step {c : Command} (ht : s.ticks t = some ⟨h, .ensureLeader, some c, none⟩) :
    step cfg s (.execute t) = some ({ s with store := (c.execute cfg h s.store).1 }.setTick t
      ⟨h, .ensureLeader, some c, some (c.execute cfg h s.store).2⟩) := by
  simp [step, ht]

theorem reply_step {c : Command} {r : Bool}
    (ht : s.ticks t = some ⟨h, .ensureLeader, some c, some r⟩) :
    step cfg s (.reply t) = some (afterReply s t ⟨h, .ensureLeader, some c, some r⟩ c r) := by
  simp [step, ht]

omit [DecidableEq H] in
theorem setTick_ticks : (s.setTick t x).ticks t = some x := Function.update_self ..

theorem command_reply (hk : s.holder cfg = some h) (c : Command) :
    (c.execute cfg h s.store).2 = true ↔ c = .renewLeaderLock := by
  cases c with
  | acquireLeaderLock => simp [acquire_held cfg hk]
  | renewLeaderLock => simpa using (renew_spec cfg h s.store).2.mpr hk

theorem answered {c : Command} {es₁ es₂ : List (Event H)}
    (ht : s.ticks t = some ⟨h, .ensureLeader, some c, none⟩) (hk : s.holder cfg = some h)
    (he : ∀ e ∈ es₁ ++ es₂, e.Aside t)
    (hr : run (step cfg) s (es₁ ++ .execute t :: (es₂ ++ [.reply t])) = some s') :
    ∃ r v, (r = true ↔ c = .renewLeaderLock) ∧
      s' = afterReply v t ⟨h, .ensureLeader, some c, some r⟩ c r := by
  obtain ⟨u, hu, hr⟩ := run_append.mp hr
  obtain ⟨hut, huk⟩ := aside_keeps (fun e h₁ => he e (by simp [h₁])) hu ht rfl hk
  obtain ⟨u', hu', hr⟩ := run_cons.mp hr
  cases (execute_step hut).symm.trans hu'
  obtain ⟨v, hv, hr⟩ := run_append.mp hr
  have hkeep : holderOf cfg (c.execute cfg h u.store).1 = some h := holder_kept hu' huk (by simp)
  obtain ⟨hvt, -⟩ := aside_keeps (fun e h₂ => he e (by simp [h₂])) hv setTick_ticks rfl hkeep
  obtain ⟨v', hv', hr⟩ := run_cons.mp hr
  cases (reply_step hvt).symm.trans hv'
  cases hr
  exact ⟨_, v, command_reply huk c, rfl⟩

theorem ensuresLeader_iff (hk : s.holder cfg = some h) (hf : s.flight h = false)
    (ht : s.ticks t = none) : EnsuresLeader cfg s t h ↔ (s.instances h).isLeader = true := by
  obtain ⟨m, hbegin, hmk, hmt⟩ := tick_begins cfg hf ht
  have hafter {es : List (Event H)} {s' : State H} (hr : run (step cfg) s (.tick t h :: es) = some s') :
      run (step cfg) m es = some s' := by
    obtain ⟨m', hm', hr⟩ := run_cons.mp hr
    cases hbegin.symm.trans hm'
    exact hr
  constructor
  · rintro ⟨⟨s', hr⟩, hall⟩
    obtain ⟨x, hx, hp⟩ := hall [] [] s' (by simp) hr
    have hr' : run (step cfg) m ([] ++ .execute t :: ([] ++ [.reply t])) = some s' := hafter hr
    obtain ⟨r, v, hrc, rfl⟩ := answered hmt (hmk.trans hk) (by simp) hr'
    by_contra hl
    simp only [hl, ↓reduceIte, reduceCtorEq, iff_false, Bool.not_eq_true] at hrc hx
    rw [hrc] at hx
    cases setTick_ticks.symm.trans hx
    cases hp
  · intro hl
    constructor
    · exact ⟨_, run_cons.mpr ⟨m, hbegin, run_cons.mpr ⟨_, execute_step hmt,
        run_cons.mpr ⟨_, reply_step setTick_ticks, rfl⟩⟩⟩⟩
    · intro es₁ es₂ s' he hr
      obtain ⟨r, v, hrc, rfl⟩ := answered hmt (hmk.trans hk) he (hafter hr)
      simp only [hl, ↓reduceIte, iff_true] at hrc
      simp only [hl, ↓reduceIte, hrc]
      exact ⟨_, setTick_ticks, rfl⟩

/-! Runs in which no reply to a `SET` that took effect is lost. -/

def Knows (s : State H) (x : Tick H) : Prop :=
  (x.sent = some .acquireLeaderLock ∧ x.reply = some true) ∨
    ((s.instances x.holderId).isLeader = true ∧ x.sent ≠ some .acquireLeaderLock ∧
      x.reply ≠ some false)

def Quiet (s : State H) : Prop :=
  ∀ t x gs, s.ticks t = some x → x.position = .reconcile gs → x.sent = none

omit [DecidableEq H] in
theorem Quiet.setTick (hs : Quiet s) (hx : ∀ gs, x.position = .reconcile gs → x.sent = none) :
    Quiet (s.setTick t x) := by
  intro t' y gs hy hp
  by_cases htt : t' = t
  · subst htt
    cases (Function.update_self ..).symm.trans hy
    exact hx gs hp
  · exact hs t' y gs ((Function.update_of_ne htt ..).symm.trans hy) hp

theorem quiet_keeps : Preserves (step (H := H) cfg) Quiet := by
  intro s e s' hstep hs
  cases step_cases hstep with
  | skip => exact hs.setTick fun _ hp => by cases hp
  | begin => exact Quiet.setTick (s := s.setInstance _ _) hs fun _ hp => by cases hp
  | @execute t x c ht hc =>
    exact Quiet.setTick (s := { s with store := _ }) hs fun gs hp => hs t x gs ht hp
  | @reply t x c r ht hp =>
    cases c <;> cases r
    · exact Quiet.setTick (s := s.setInstance _ _) hs fun _ hp' => by cases hp'
    · exact Quiet.setTick (s := s.setInstance _ _) hs fun _ _ => rfl
    · exact Quiet.setTick (s := s.setInstance _ _) hs fun _ hp' => by cases hp.symm.trans hp'
    · exact Quiet.setTick (s := s.setInstance _ _) hs fun _ _ => rfl
  | fail => exact Quiet.setTick (s := s.setInstance _ _) hs fun _ hp => by cases hp
  | @next t x threw gs gs' ht hp => exact hs.setTick fun _ _ => hs t x gs ht hp
  | last => exact Quiet.setTick (s := s.setInstance _ _) hs fun _ hp => by cases hp
  | free => exact hs

structure Aware (cfg : Config) (s : State H) : Prop where
  apart : Apart s
  idle : ∀ h, s.holder cfg = some h → (∀ t, ¬ Running s t h) → (s.instances h).isLeader = true
  running : ∀ t x, s.ticks t = some x → x.running → s.holder cfg = some x.holderId → Knows s x

/-- No acquire that has set the key is reported as failed or executed once more while its instance
holds the key, and none sets the key after its tick has returned. -/
def Heard (cfg : Config) (s : State H) : Event H → Prop
  | .fail t => ∀ x, s.ticks t = some x → x.sent = some .acquireLeaderLock → x.reply = some true →
      s.holder cfg ≠ some x.holderId
  | .execute t => ∀ x, s.ticks t = some x → x.sent = some .acquireLeaderLock →
      (x.running → x.reply = some true → s.holder cfg ≠ some x.holderId) ∧
        (¬ x.running → s.holder cfg ≠ none)
  | _ => True

omit [DecidableEq H] in
theorem Aware.setTick (hs : Aware cfg s) (hap : Apart (s'.setTick t x))
    (hticks : s'.ticks = s.ticks) (hinst : ∀ h, h ≠ x.holderId → s'.instances h = s.instances h)
    (hother : ∀ h, h ≠ x.holderId → s'.holder cfg = some h → s.holder cfg = some h)
    (hown : ∀ t', t' ≠ t → ¬ Running s t' x.holderId)
    (hnew : ∀ h, h ≠ x.holderId → ¬ Running s t h)
    (hidle : s'.holder cfg = some x.holderId → ¬ x.running →
      (s'.instances x.holderId).isLeader = true)
    (hrunning : s'.holder cfg = some x.holderId → x.running → Knows s' x) :
    Aware cfg (s'.setTick t x) where
  apart := hap
  idle h hk hnone := by
    by_cases hh : h = x.holderId
    · subst hh
      exact hidle hk fun hx => hnone t ⟨x, setTick_ticks, rfl, hx⟩
    · refine (congrArg (·.isLeader) (hinst h hh)).trans (hs.idle h (hother h hh hk) fun t' => ?_)
      by_cases htt : t' = t
      · exact htt ▸ hnew h hh
      · rintro ⟨y, hy, hyr⟩
        exact hnone t' ⟨y, (Function.update_of_ne htt ..).trans ((congrFun hticks t').trans hy), hyr⟩
  running t' y hy hyr hk := by
    by_cases htt : t' = t
    · subst htt
      cases setTick_ticks.symm.trans hy
      exact hrunning hk hyr
    · have hy' : s.ticks t' = some y :=
        (congrFun hticks t').symm.trans ((Function.update_of_ne htt ..).symm.trans hy)
      have hh : y.holderId ≠ x.holderId := fun hh => hown t' htt ⟨y, hy', hh, hyr⟩
      have hknow := hs.running t' y hy' hyr (hother _ hh hk)
      change Knows s' y
      rwa [Knows, hinst _ hh]

omit [DecidableEq H] in
theorem Aware.turn {y : Tick H} (hs : Aware cfg s) (ht : s.ticks t = some y) (hy : y.running)
    (hxy : x.holderId = y.holderId) (hap : Apart (s'.setTick t x)) (hticks : s'.ticks = s.ticks)
    (hinst : ∀ h, h ≠ x.holderId → s'.instances h = s.instances h)
    (hother : ∀ h, h ≠ x.holderId → s'.holder cfg = some h → s.holder cfg = some h)
    (hidle : s'.holder cfg = some x.holderId → ¬ x.running →
      (s'.instances x.holderId).isLeader = true)
    (hrunning : s'.holder cfg = some x.holderId → x.running → Knows s' x) :
    Aware cfg (s'.setTick t x) := by
  have hrun : Running s t x.holderId := ⟨y, ht, hxy.symm, hy⟩
  refine hs.setTick hap hticks hinst hother (fun t' htt ht' => ?_) (fun h hh ht' => ?_) hidle hrunning
  · exact htt (hs.apart.unique t' t _ ht' hrun)
  · exact hh (((running_iff ht).mp ht').1.symm.trans hxy.symm)

omit [DecidableEq H] in
theorem Aware.over (hs : Aware cfg s) (hap : Apart (s'.setTick t x)) (hticks : s'.ticks = s.ticks)
    (hinst : s'.instances = s.instances) (hk : s'.holder cfg = s.holder cfg)
    (ht : ∀ h, ¬ Running s t h) (hx : ¬ x.running) : Aware cfg (s'.setTick t x) where
  apart := hap
  idle h hk' hnone := by
    refine (congrArg Instance.isLeader (congrFun hinst h)).trans
      (hs.idle h (hk.symm.trans hk') fun t' => ?_)
    by_cases htt : t' = t
    · exact htt ▸ ht h
    · rintro ⟨y, hy, hyr⟩
      exact hnone t' ⟨y, (Function.update_of_ne htt ..).trans ((congrFun hticks t').trans hy), hyr⟩
  running t' y hy hyr hk' := by
    by_cases htt : t' = t
    · subst htt
      cases setTick_ticks.symm.trans hy
      exact absurd hyr hx
    · have hy' : s.ticks t' = some y :=
        (congrFun hticks t').symm.trans ((Function.update_of_ne htt ..).symm.trans hy)
      have hknow := hs.running t' y hy' hyr (hk.symm.trans hk')
      change Knows s' y
      rwa [Knows, hinst]

theorem setInstance_other (i : Instance) (h' : H) (hh : h' ≠ h) :
    (s.setInstance h i).instances h' = s.instances h' := Function.update_of_ne hh ..

theorem isLeader_setInstance (i : Instance) :
    ((s.setInstance h i).instances h).isLeader = i.isLeader := by
  simp [State.setInstance]

omit [DecidableEq H] in
theorem Aware.renewing (hs : Aware cfg s) (ht : s.ticks t = some x) (hx : x.running)
    (hc : x.sent ≠ some .acquireLeaderLock) (hk : s.holder cfg = some x.holderId) :
    (s.instances x.holderId).isLeader = true ∧ x.reply ≠ some false := by
  rcases hs.running t x ht hx hk with ⟨hacq, -⟩ | ⟨hl, -, hr⟩
  · exact absurd hacq hc
  · exact ⟨hl, hr⟩

omit [DecidableEq H] in
theorem Aware.acquiring (hs : Aware cfg s) (ht : s.ticks t = some x) (hx : x.running)
    (hc : x.sent = some .acquireLeaderLock) (hk : s.holder cfg = some x.holderId) :
    x.reply = some true := by
  rcases hs.running t x ht hx hk with ⟨-, hr⟩ | ⟨-, hacq, -⟩
  · exact hr
  · exact absurd hc hacq

theorem aware_begin {c : Command} (hs : Aware cfg s) (ht : s.ticks t = none)
    (hi : s.flight h = false) (hc : c = .acquireLeaderLock → (s.instances h).isLeader = false)
    (hap : Apart ((s.setInstance h { s.instances h with tickInFlight := true }).setTick t
      ⟨h, .ensureLeader, some c, none⟩)) :
    Aware cfg ((s.setInstance h { s.instances h with tickInFlight := true }).setTick t
      ⟨h, .ensureLeader, some c, none⟩) := by
  have hidle (t' : ℕ) : ¬ Running s t' h := fun hrun =>
    Bool.false_ne_true (hi.symm.trans ((hs.apart.flight h).mpr ⟨t', hrun⟩))
  refine hs.setTick hap rfl (setInstance_other _) (fun _ _ hk => hk) (fun t' _ => hidle t')
    (fun h' _ => by simp [Running, ht]) (fun _ hx => absurd ?_ hx) fun hk _ => .inr ?_
  · simp [Tick.running]
  · -- an instance that holds the key and is idle knows it, hence renews
    have hl := hs.idle h hk hidle
    refine ⟨(isLeader_setInstance _).trans hl, ?_, by simp⟩
    intro hacq
    cases hacq
    exact Bool.false_ne_true ((hc rfl).symm.trans hl)

theorem aware_execute {c : Command} (hs : Aware cfg s) (ht : s.ticks t = some x)
    (hc : x.sent = some c) (he : Heard cfg s (.execute t))
    (hap : Apart (({ s with store := (c.execute cfg x.holderId s.store).1 } : State H).setTick t
      { x with reply := some (c.execute cfg x.holderId s.store).2 })) :
    Aware cfg (({ s with store := (c.execute cfg x.holderId s.store).1 } : State H).setTick t
      { x with reply := some (c.execute cfg x.holderId s.store).2 }) := by
  have hover (hx : ¬ x.running) (h : H) : ¬ Running s t h := fun hrun => hx ((running_iff ht).mp hrun).2
  cases c with
  | renewLeaderLock =>
    obtain ⟨hkeep, hreply⟩ := renew_spec cfg x.holderId s.store
    by_cases hx : x.running
    · refine hs.turn ht hx rfl hap rfl (fun _ _ => rfl) (fun h _ hk => hkeep.symm.trans hk)
        (fun _ hx' => absurd hx hx') fun hk _ => .inr ?_
      have hk' : s.holder cfg = some x.holderId := hkeep.symm.trans hk
      have hacq : x.sent ≠ some .acquireLeaderLock := by simp [hc]
      refine ⟨(hs.renewing ht hx hacq hk').1, hacq, ?_⟩
      simp [hreply.mpr hk']
    · exact hs.over hap rfl rfl hkeep (hover hx) hx
  | acquireLeaderLock =>
    obtain ⟨hagain, hlate⟩ := he x ht hc
    cases hk : s.holder cfg with
    | none =>
      obtain ⟨hset, hreply⟩ := acquire_free cfg (h := x.holderId) hk
      have hx : x.running := by_contra fun hx => hlate hx hk
      refine hs.turn ht hx rfl hap rfl (fun _ _ => rfl) (fun h hh hk' => ?_)
        (fun _ hx' => absurd hx hx') fun _ _ => .inl ⟨hc, congrArg some hreply⟩
      exact absurd (Option.some.inj (hk'.symm.trans hset)) hh
    | some j =>
      simp only [acquire_held cfg hk] at hap ⊢
      by_cases hx : x.running
      · refine hs.turn ht hx rfl hap rfl (fun _ _ => rfl) (fun h _ hk' => hk')
          (fun _ hx' => absurd hx hx') fun hk' _ => ?_
        exact absurd hk' (hagain hx (hs.acquiring ht hx hc hk'))
      · exact hs.over hap rfl rfl rfl (hover hx) hx

theorem aware_reply {c : Command} {r : Bool} (hs : Aware cfg s) (ht : s.ticks t = some x)
    (hp : x.position = .ensureLeader) (hc : x.sent = some c) (hr : x.reply = some r)
    (hap : Apart (afterReply s t x c r)) : Aware cfg (afterReply s t x c r) := by
  have hx := running_of_position (.inl hp)
  cases c with
  | renewLeaderLock =>
    have hacq : x.sent ≠ some .acquireLeaderLock := by simp [hc]
    cases r with
    | true =>
      refine hs.turn ht hx rfl hap rfl (setInstance_other _) (fun _ _ hk => hk)
        (fun _ hx' => absurd ?_ hx') fun hk _ => .inr ?_
      · simp [Tick.running]
      · obtain ⟨hl, hr'⟩ := hs.renewing ht hx hacq hk
        exact ⟨(isLeader_setInstance _).trans hl, by simp, hr'⟩
    | false =>
      refine hs.turn ht hx rfl hap rfl (setInstance_other _) (fun _ _ hk => hk)
        (fun _ hx' => absurd hx hx') fun hk _ => ?_
      exact absurd hr (hs.renewing ht hx hacq hk).2
  | acquireLeaderLock =>
    cases r with
    | true =>
      refine hs.turn ht hx rfl hap rfl (setInstance_other _) (fun _ _ hk => hk)
        (fun _ hx' => absurd ?_ hx') fun hk _ => .inr ?_
      · simp [Tick.running]
      · exact ⟨isLeader_setInstance _, by simp, by simp [hr]⟩
    | false =>
      refine hs.turn ht hx rfl hap rfl (setInstance_other _) (fun _ _ hk => hk)
        (fun hk _ => ?_) fun _ hx' => absurd rfl hx'
      cases hr.symm.trans (hs.acquiring ht hx hc hk)

theorem aware_finish (hs : Aware cfg s) (ht : s.ticks t = some x) (hx : x.running)
    (hl : s.holder cfg = some x.holderId → (s.instances x.holderId).isLeader = true)
    (hap : Apart (finish s t x (s.instances x.holderId).isLeader)) :
    Aware cfg (finish s t x (s.instances x.holderId).isLeader) := by
  refine hs.turn ht hx rfl hap rfl (setInstance_other _) (fun _ _ hk => hk) (fun hk _ => ?_)
    fun _ hx' => absurd rfl hx'
  exact (isLeader_setInstance _).trans (hl hk)

theorem aware_step (hstep : step cfg s e = some s') (he : Heard cfg s e) (hq : Quiet s)
    (hs : Aware cfg s) : Aware cfg s' := by
  have hap := apart_keeps s e s' hstep hs.apart
  cases step_cases hstep with
  | skip ht hi =>
    refine hs.over hap rfl rfl rfl (fun h => ?_) (by simp [Tick.running])
    simp [Running, ht]
  | begin ht hi hc => exact aware_begin hs ht hi hc hap
  | execute ht hc => exact aware_execute hs ht hc he hap
  | reply ht hp hc hr => exact aware_reply hs ht hp hc hr hap
  | @fail t x ht hp =>
    have hx := running_of_position (.inl hp)
    refine aware_finish hs ht hx (fun hk => ?_) hap
    refine (hs.renewing ht hx (fun hacq => ?_) hk).1
    exact he x ht hacq (hs.acquiring ht hx hacq hk) hk
  | @next t x threw gs gs' ht hp =>
    have hx := running_of_position (.inr ⟨_, hp⟩)
    refine hs.turn ht hx rfl hap rfl (fun _ _ => rfl) (fun _ _ hk => hk)
      (fun _ hx' => absurd ?_ hx') fun hk _ => hs.running t x ht hx hk
    simp [Tick.running]
  | @last t x threw gs ht hp =>
    have hx := running_of_position (.inr ⟨_, hp⟩)
    refine aware_finish hs ht hx (fun hk => ?_) hap
    exact (hs.renewing ht hx (by simp [hq t x gs ht hp]) hk).1
  | @free e store he' hk =>
    have hnone (h : H) : ({ s with store } : State H).holder cfg ≠ some h := by
      simp [State.holder, holderOf, hk]
    exact ⟨hap, fun h hk' => absurd hk' (hnone h), fun t x _ _ hk' => absurd hk' (hnone _)⟩

/-- When no reply to an acquire that has set the key is lost, the instance that holds the key is
told so by its next call, whatever else is lost. -/
theorem holder_ensures_leader (hr : run (step cfg) start es = some s) (hk : s.holder cfg = some h)
    (hf : (s.instances h).tickInFlight = false) (ht : s.ticks t = none) :
    (EnsuresLeader cfg s t h ↔ (s.instances h).isLeader = true) ∧
      (Throughout (step cfg) (Heard cfg) start es → EnsuresLeader cfg s t h) := by
  have hiff := ensuresLeader_iff hk hf ht
  refine ⟨hiff, fun hm => hiff.mpr ?_⟩
  have hstart : Quiet (start : State H) ∧ Aware cfg (start : State H) := by
    refine ⟨fun t x gs hx => (by cases hx), apart_start, fun h hk => (by cases hk), fun t x hx => ?_⟩
    cases hx
  obtain ⟨-, haw⟩ := hm.run (I := fun s => Quiet s ∧ Aware cfg s) (fun s e s' hstep he hs =>
    ⟨quiet_keeps s e s' hstep hs.1, aware_step hstep he hs.1 hs.2⟩) hr hstart
  apply haw.idle h hk
  intro t hrun
  exact Bool.false_ne_true (hf.symm.trans ((haw.apart.flight h).mpr ⟨t, hrun⟩))

def lostRenewal : List (Event ℕ) :=
  [.tick 0 1, .execute 0, .reply 0, .reconciled 0 false, .reconciled 0 true, .tick 1 1, .execute 1,
    .fail 1]

theorem lostRenewal_harmless : ∃ s, run (step engineConfig) start lostRenewal = some s ∧
    s.holder engineConfig = some 1 ∧ EnsuresLeader engineConfig s 2 1 := by
  have hr : run (step engineConfig) start lostRenewal = some (Option.get _ rfl) :=
    (Option.some_get _).symm
  refine ⟨_, hr, rfl, (holder_ensures_leader hr rfl rfl rfl).2 ?_⟩
  refine ⟨trivial, fun _ h => ?_⟩
  cases h
  refine ⟨fun x hx _ => ?_, fun _ h => ?_⟩
  · cases hx
    exact ⟨fun _ h => (by cases h), fun h => absurd (by simp [Tick.running]) h⟩
  cases h
  refine ⟨trivial, fun _ h => ?_⟩
  cases h
  refine ⟨trivial, fun _ h => ?_⟩
  cases h
  refine ⟨trivial, fun _ h => ?_⟩
  cases h
  refine ⟨trivial, fun _ h => ?_⟩
  cases h
  refine ⟨fun x hx hacq => ?_, fun _ h => ?_⟩
  · cases hx
    cases hacq
  cases h
  refine ⟨fun x hx hacq => ?_, fun _ _ => trivial⟩
  cases hx
  cases hacq

/-- Redis has set the key, and the instance is told that its command failed: the next `SET NX` fails
against the instance's own id. -/
theorem shut_out_by_own_lock :
    ∃ s, run (step engineConfig) start [.tick 0 1, .execute 0, .fail 0] = some s ∧
      s.holder engineConfig = some 1 ∧ (s.instances 1).tickInFlight = false ∧ s.ticks 1 = none ∧
      ¬ EnsuresLeader engineConfig s 1 1 := by
  refine ⟨_, rfl, rfl, rfl, rfl, fun h => ?_⟩
  have hleader := (ensuresLeader_iff rfl rfl rfl).mp h
  cases hleader

end JitoGame.RoundScheduler
