import JitoGame.Web.Books

namespace JitoGame.Web

open AddCommGroup Remainders Tallies Traces

variable {code : GameCode} {v v' : View} {e : Event} {ring : RingIndex} {p q t0 start stop stopMs a b : ℚ}

/-! How fast a ring turns. -/

def Event.time : Event → Option ℤ
  | .effects _ now | .poll now _ => some now
  | _ => none

structure Clocked where
  view : View
  now : ℤ

def Clocked.step (c : Clocked) (e : ℤ × Option Event) : Option Clocked :=
  if c.now ≤ e.1 then
    match e.2 with
    | none => some ⟨c.view, e.1⟩
    | some event =>
      if event.time.all (· = e.1) then (JitoGame.Web.step c.view event).map (⟨·, e.1⟩) else none
  else none

def View.turn (v : View) : Option (Digits × ℤ) := v.poll.map fun p => (p.targetDigits, p.startTs)

theorem turn_eq_none : v.turn = none ↔ v.poll = none := Option.map_eq_none_iff

structure OnClock (code : GameCode) (c : Clocked) : Prop where
  kempt : Kempt code c.view
  passed : c.view.poll = none → ∀ startTs, c.view.drawStartTs = some startTs → startTs + drawTotalMs ≤ c.now

theorem stop_pos (ring : RingIndex) : (0 : ℚ) < (ringStopMs ring : ℤ) := by
  have hpos : ∀ ring, 0 < ringStopMs ring := by decide
  exact_mod_cast hpos ring

theorem late_of_total {startTs now : ℤ} (h : startTs + drawTotalMs ≤ now) (ring : RingIndex) :
    ((ringStopMs ring : ℤ) : ℚ) ≤ ((now - startTs : ℤ) : ℚ) := by
  have hstops : ∀ ring, ringStopMs ring ≤ drawTotalMs := by decide
  have hstop := hstops ring
  exact_mod_cast (by omega : ringStopMs ring ≤ now - startTs)

theorem ringAngleAt_late {w d : ℕ} (hw : w < 10) (hd : d < 10) {startTs now : ℤ}
    (h : startTs + drawTotalMs ≤ now) (ring : RingIndex) :
    ringAngleAt ring w d ((now - startTs : ℤ) : ℚ) (ringStopMs ring : ℤ) = restAngle ring d := by
  obtain ⟨i, -, -, hstart⟩ := restAngle_spec ring hw
  obtain ⟨j, -, -, hstop⟩ := restAngle_spec ring hd
  rw [ringAngleAt_eq hstart hstop, spinAngle_of_stop (stop_pos ring) (late_of_total h ring), hstop]

theorem OnClock.ringAngle {c : Clocked} (h : OnClock code c) (ring : RingIndex) :
    c.view.ringAngle c.now ring = c.view.turn.elim (restAngle ring (c.view.wheelDigits ring)) fun d =>
      ringAngleAt ring (c.view.wheelDigits ring) (d.1 ring) ((c.now - d.2 : ℤ) : ℚ) (ringStopMs ring : ℤ) := by
  have hw := h.kempt.drawn.wheel ring
  have haimed := h.kempt.aimed
  cases hpoll : c.view.poll with
  | some p =>
    obtain ⟨hphase, -, -⟩ := h.kempt.regular.polled.of_poll p hpoll
    obtain ⟨-, htarget, hstart⟩ := haimed.poll p hpoll
    simp only [View.ringAngle, View.currentDigits, View.turn, hphase, hstart, htarget, hpoll, Option.map_some,
      Option.getD_some, Option.elim_some]
  | none =>
    have hrests : c.view.currentDigits = c.view.wheelDigits := by
      cases hphase : c.view.gameState.phase with
      | drawing =>
        cases htarget : c.view.drawTarget with
        | none => simp [View.currentDigits, hphase, htarget]
        | some d => simp [View.currentDigits, hphase, htarget, haimed.target hpoll d htarget]
      | betting | result =>
        cases hresult : c.view.gameState.drawResult with
        | none => simp [View.currentDigits, hphase, hresult]
        | some result => simp [View.currentDigits, hphase, hresult, haimed.result hpoll result hresult]
    rw [turn_eq_none.mpr hpoll, Option.elim_none, View.ringAngle, hrests]
    split
    · rename_i startTs _ hstart
      exact ringAngleAt_late hw hw (h.passed hpoll startTs hstart) ring
    · rfl

end JitoGame.Web
