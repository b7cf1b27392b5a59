import JitoGame.Web.Draws

namespace JitoGame.Web

open Traces

variable {code : GameCode} {v v' : View} {e : Event} {es : List Event}

structure OnTime (v : View) : Prop where
  drawing : v.gameState.phase = .drawing → v.pending = false →
    ∃ p, v.poll = some p ∧ v.shown = revealedDigitCount p.elapsed
  betting : v.gameState.phase = .betting → v.pending = false → v.shown = 0

/-- Betting opens and draws start without a win of the round before, and the clock is not set back
past the stop of a ring. -/
def Timely (v : View) : Event → Prop
  | .effects _ _ => v.gameState.phase ≠ .result → v.gameState.winAmount ≤ 0
  | .poll now _ => ∀ p, v.poll = some p → now - p.startTs < drawTotalMs →
      p.firedCount ≤ revealedDigitCount (now - p.startTs)
  | _ => True

def Counted (v : View) : Prop :=
  ∀ p, v.poll = some p → v.revealed = p.firedCount ∧ p.firedCount ≤ 3 ∧
    revealedDigitCount p.elapsed ≤ p.firedCount

theorem shown_eq (hp : v.gameState.phase ≠ .result) :
    v.shown = if 0 < v.gameState.winAmount then 3 else v.revealed := by
  simp [View.shown, View.isWin, hp]

theorem shown_polled (hp : v.gameState.phase ≠ .result) (revealed : ℕ) (poll : Option Poll) :
    View.shown { v with revealed, poll } = if 0 < v.gameState.winAmount then 3 else revealed :=
  shown_eq hp

theorem runPoll_spec {p : Poll} {now : ℤ} (drawTime : String)
    (hshort : now - p.startTs < drawTotalMs) :
    v.runPoll p now drawTime = { v with
      revealed := if p.firedCount < revealedDigitCount (now - p.startTs) then
        revealedDigitCount (now - p.startTs) else v.revealed
      poll := some { p with
        firedCount := max p.firedCount (revealedDigitCount (now - p.startTs))
        elapsed := now - p.startTs } } := by
  simp only [View.runPoll, hshort, ↓reduceIte]

theorem runPoll_settles {p : Poll} {now : ℤ} (drawTime : String) (hd : v.gameState.phase = .drawing)
    (hlong : ¬ now - p.startTs < drawTotalMs) :
    (v.runPoll p now drawTime).gameState.phase = .result ∧
      (v.runPoll p now drawTime).poll = none := by
  simp only [View.runPoll, hlong, ↓reduceIte]
  exact ⟨(settle_drawing hd _ _).1, rfl⟩

theorem counted_step (h : Regular v) (hc : Counted v) (hstep : step v e = some v') : Counted v' := by
  cases step_cases hstep with
  | act | countdown | reopen | videoEnd => exact hc
  | @effects random now hv =>
    have hnone := h.polled.poll_eq_none (.inl hv)
    cases hp : v.gameState.phase with
    | drawing =>
      simp only [View.runEffects, hp]
      intro p hpoll
      cases hpoll
      have hzero : revealedDigitCount 0 ≤ 0 := by decide
      exact ⟨rfl, Nat.zero_le 3, hzero⟩
    | betting | result =>
      simp only [View.runEffects, hp]
      intro p hpoll
      cases hnone.symm.trans hpoll
  | @poll p now drawTime hp =>
    obtain ⟨hd, -, -⟩ := h.polled.of_poll p hp
    obtain ⟨hrevealed, hle, -⟩ := hc p hp
    have hcount := revealedDigitCount_le (now - p.startTs)
    by_cases hshort : now - p.startTs < drawTotalMs
    · rw [runPoll_spec drawTime hshort]
      intro q hq
      cases hq
      dsimp only
      split <;> omega
    · intro q hq
      cases (runPoll_settles drawTime hd hshort).2.symm.trans hq

structure Ticking (v : View) : Prop where
  regular : Regular v
  counted : Counted v

theorem ticking_keeps : Preserves step Ticking := fun v e v' hstep h =>
  ⟨regular_keeps v e v' hstep h.regular, counted_step h.regular h.counted hstep⟩

theorem ticking_initial (code : GameCode) : Ticking (initialView code) :=
  ⟨⟨funded_initial code, polled_initial code⟩, fun _ h => (by cases h)⟩

theorem onTime_of_pending (h : v.pending = true) : OnTime v := by
  constructor <;> intro _ hv <;> cases h.symm.trans hv

theorem onTime_of_result (h : v.gameState.phase = .result) : OnTime v := by
  constructor <;> intro hp <;> cases h.symm.trans hp

theorem OnTime.of_same (h : OnTime v) (hphase : v'.gameState.phase = v.gameState.phase)
    (hwin : v'.gameState.winAmount = v.gameState.winAmount) (hrevealed : v'.revealed = v.revealed)
    (hpoll : v'.poll = v.poll) (hv : v'.pending = v.pending) : OnTime v' := by
  have hshown : v'.shown = v.shown := by
    simp [View.shown, View.isWin, hphase, hwin, hrevealed]
  constructor
  · intro hd hpend
    rw [hpoll, hshown]
    exact h.drawing (hphase ▸ hd) (hv ▸ hpend)
  · intro hb hpend
    rw [hshown]
    exact h.betting (hphase ▸ hb) (hv ▸ hpend)

theorem shown_effects (v : View) (random : Random) (now : ℤ) (hp : v.gameState.phase ≠ .result) :
    (v.runEffects random now).shown = if 0 < v.gameState.winAmount then 3 else 0 := by
  cases hphase : v.gameState.phase with
  | result => exact absurd hphase hp
  | betting | drawing => rw [shown_eq] <;> simp [View.runEffects, hphase]

theorem onTime_effects (v : View) (random : Random) (now : ℤ) :
    OnTime (v.runEffects random now) ↔ Timely v (.effects random now) := by
  cases hp : v.gameState.phase with
  | betting =>
    have hshown := shown_effects v random now (by rw [hp]; decide)
    constructor
    · intro h _
      have hzero := h.betting (by simp [View.runEffects, hp]) (by simp [View.runEffects, hp])
      rw [hshown] at hzero
      split at hzero <;> omega
    · intro hc
      have hwin : v.gameState.winAmount ≤ 0 := hc (by simp [hp])
      refine ⟨fun hd => ?_, fun _ _ => by rw [hshown, if_neg (Int.not_lt.mpr hwin)]⟩
      simp [View.runEffects, hp] at hd
  | drawing =>
    have hpoll : (v.runEffects random now).poll = some ⟨drawResultOf (drawnTriple random),
        digitsOf (drawnTriple random), now, 0, 0⟩ := by simp [View.runEffects, hp]
    have hshown := shown_effects v random now (by rw [hp]; decide)
    constructor
    · intro h _
      obtain ⟨p, hp', hcount⟩ := h.drawing (by simp [View.runEffects, hp])
        (by simp [View.runEffects, hp])
      cases hpoll.symm.trans hp'
      rw [hshown] at hcount
      change _ = 0 at hcount
      split at hcount <;> omega
    · intro hc
      have hwin : v.gameState.winAmount ≤ 0 := hc (by simp [hp])
      refine ⟨fun _ _ => ⟨_, hpoll, by rw [hshown, if_neg (Int.not_lt.mpr hwin)]; rfl⟩, fun hb => ?_⟩
      simp [View.runEffects, hp] at hb
  | result =>
    refine ⟨fun _ hne => absurd hp hne, fun _ => onTime_of_result ?_⟩
    simp [View.runEffects, hp]

theorem onTime_poll (h : Ticking v) (ho : OnTime v) {p : Poll} (hp : v.poll = some p) (now : ℤ)
    (drawTime : String) :
    OnTime (v.runPoll p now drawTime) ↔ Timely v (.poll now drawTime) := by
  obtain ⟨hd, hpend, -⟩ := h.regular.polled.of_poll p hp
  obtain ⟨hrevealed, hle, hcounted⟩ := h.counted p hp
  obtain ⟨q, hq, hshown⟩ := ho.drawing hd hpend
  cases hp.symm.trans hq
  have hno : v.gameState.phase ≠ .result := by simp [hd]
  rw [shown_eq hno] at hshown
  have hcount := revealedDigitCount_le (now - p.startTs)
  have htimely : Timely v (.poll now drawTime) ↔ (now - p.startTs < drawTotalMs →
      p.firedCount ≤ revealedDigitCount (now - p.startTs)) := by
    refine ⟨fun hc => hc p hp, fun hc q hq => ?_⟩
    cases hp.symm.trans hq
    exact hc
  rw [htimely]
  by_cases hshort : now - p.startTs < drawTotalMs
  · rw [runPoll_spec drawTime hshort]
    constructor
    · intro h' _
      obtain ⟨q, hq, hnow⟩ := h'.drawing hd hpend
      cases hq
      rw [shown_polled hno] at hnow
      dsimp only at hnow
      split at hnow
      · omega
      · split at hnow <;> omega
    · intro hc
      have hfired := hc hshort
      refine ⟨fun _ _ => ⟨_, rfl, ?_⟩, fun hb => by cases hd.symm.trans hb⟩
      rw [shown_polled hno]
      dsimp only
      split
      · rename_i hwin
        rw [if_pos hwin] at hshown
        omega
      · split <;> omega
  · refine ⟨fun _ hlt => absurd hlt hshort, fun _ => ?_⟩
    exact onTime_of_result (runPoll_settles drawTime hd hshort).1

theorem onTime_step (h : Ticking v) (ho : OnTime v) (hstep : step v e = some v') :
    OnTime v' ↔ Timely v e := by
  cases step_cases hstep with
  | act ha =>
    have hacted := GameState.act_acted h.regular.funded ha
    refine ⟨fun _ => trivial, fun _ => ho.of_same hacted.phase hacted.winAmount rfl rfl ?_⟩
    simp [View.set, hacted.phase]
  | countdown hp hv =>
    refine ⟨fun _ => trivial, fun _ => ?_⟩
    have hwin : v.gameState.countdown.winAmount = v.gameState.winAmount := by
      rw [GameState.countdown]
      split <;> rfl
    by_cases hsame : v.gameState.countdown.phase = v.gameState.phase
    · exact ho.of_same hsame hwin rfl rfl (by simp [View.set, hsame])
    · exact onTime_of_pending (by simp [View.set, hsame])
  | @effects random now => exact onTime_effects v random now
  | @poll p now drawTime hp => exact onTime_poll h ho hp now drawTime
  | reopen hp hv =>
    refine ⟨fun _ => trivial, fun _ => onTime_of_pending ?_⟩
    simp [View.set, reopen_phase hp, hp]
  | videoEnd => exact ⟨fun _ => trivial, fun _ => ho.of_same rfl rfl rfl rfl rfl⟩

theorem onTime_always_iff (hr : run step (initialView code) es = some v) :
    (∀ u, Visits step (initialView code) es u → OnTime u) ↔
      Throughout step Timely (initialView code) es :=
  always_iff ticking_keeps (fun _ _ _ => onTime_step) (ticking_initial code)
    (onTime_of_pending rfl) hr

def lostDraw : List Event :=
  .effects half 0 :: List.replicate 37 .countdown ++ [.effects half 1000, .poll 6500 "12:00"]

theorem lostDraw_onTime : ∃ v, run step (initialView .tct) lostDraw = some v ∧ v.shown = 1 ∧
    ∀ u, Visits step (initialView .tct) lostDraw u → OnTime u := by
  have hrun : (run step (initialView .tct) lostDraw).map View.shown = some 1 := by decide +kernel
  obtain ⟨v, hv, hshown⟩ := Option.map_eq_some_iff.mp hrun
  refine ⟨v, hv, hshown, (onTime_always_iff hv).mpr ?_⟩
  have hclose : (run step (initialView .tct) (.effects half 0 :: List.replicate 37 .countdown)).map
      (fun v => (v.gameState.phase, v.gameState.winAmount)) = some (.drawing, 0) := by decide +kernel
  obtain ⟨m, hm, heq⟩ := Option.map_eq_some_iff.mp hclose
  obtain ⟨hphase, hwin⟩ := Prod.mk.inj heq
  refine (throughout_append hm).mpr
    ⟨⟨fun _ => le_refl 0, fun _ _ => .of_forall ?_⟩, ⟨fun _ => hwin.le, ?_⟩⟩
  · intro e he _
    cases List.eq_of_mem_replicate he
    trivial
  · intro d hd
    refine ⟨fun p hp _ => ?_, fun _ _ => trivial⟩
    have hfresh : p.firedCount = 0 := by
      cases step_cases hd with
      | effects =>
        simp only [View.runEffects, hphase] at hp
        cases hp
        rfl
    rw [hfresh]
    exact Nat.zero_le _

def wonThenDrawn : List Event :=
  anyRound [.place .single 0] ++ .effects half 11200 :: List.replicate 37 .countdown ++
    [.effects quarter 60000]

theorem win_shows_next_draw : ∃ v, run step (initialView .tct) wonThenDrawn = some v ∧
    v.gameState.drawResult = some ⟨250, 50, 0⟩ ∧ v.shown = 3 ∧ ¬ OnTime v := by
  have hrun : (run step (initialView .tct) wonThenDrawn).map (fun v =>
      (v.gameState.drawResult, v.shown, v.gameState.phase, v.pending, v.poll.map Poll.elapsed)) =
        some (some ⟨250, 50, 0⟩, 3, .drawing, false, some 0) := by decide +kernel
  obtain ⟨v, hv, heq⟩ := Option.map_eq_some_iff.mp hrun
  simp only [Prod.mk.injEq] at heq
  obtain ⟨hresult, hshown, hphase, hpend, hpoll⟩ := heq
  refine ⟨v, hv, hresult, hshown, fun h => ?_⟩
  obtain ⟨p, hp, hcount⟩ := h.drawing hphase hpend
  rw [hp] at hpoll
  rw [Option.some.inj hpoll, hshown] at hcount
  cases hcount

end JitoGame.Web
