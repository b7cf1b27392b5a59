import JitoGame.Web.Preview
import JitoGame.Web.Rings

namespace JitoGame.Web

open Tallies Traces GameState

variable {g g' : GameState} {v v' : View} {bets : Bets} {t : ℕ}

/-! What a draw pays. -/

theorem cellWin_cellKey (result : DrawResult) (type : BetType) (value : ℕ) (stake : ℤ) :
    cellWin result (cellKey type value) stake =
      if value = result.target type then stake * payout type else 0 := by
  rw [cellWin, splitKey?_cellKey]

theorem cellWin_eq_add (result : DrawResult) {key : String} (hk : IsCell key) (stake : ℤ) :
    cellWin result key stake =
      (if key = cellKey .single result.single then stake * 9 else 0) +
      ((if key = cellKey .double result.double then stake * 90 else 0) +
      (if key = cellKey .triple result.triple then stake * 900 else 0)) := by
  obtain ⟨type, value, rfl⟩ := hk
  rw [cellWin_cellKey]
  by_cases hv : value = result.target type
  · subst hv
    cases type <;> simp [cellKey_inj, DrawResult.target, payout]
  · rw [if_neg hv]
    cases type <;> simp only [DrawResult.target] at hv <;> simp [cellKey_inj, hv]

theorem settleBets_eq (h : Keyed IsCell bets) (result : DrawResult) :
    settleBets bets result = 9 * amount bets (cellKey .single result.single) +
      90 * amount bets (cellKey .double result.double) +
      900 * amount bets (cellKey .triple result.triple) := by
  have hcells : (bets.entries.map fun e => cellWin result e.1 e.2) = bets.entries.map fun e =>
      (if e.1 = cellKey .single result.single then e.2 * 9 else 0) +
      ((if e.1 = cellKey .double result.double then e.2 * 90 else 0) +
      (if e.1 = cellKey .triple result.triple then e.2 * 900 else 0)) := by
    apply List.map_congr_left
    intro e he
    exact cellWin_eq_add result (h e.1 (List.mem_map_of_mem he)) e.2
  rw [settleBets_eq_sum, hcells, List.sum_map_add, List.sum_map_add, sum_entries_of_key,
    sum_entries_of_key, sum_entries_of_key]
  omega

/-! The cells that a draw lights. -/

def GameState.cells (g : GameState) : BetType → List ℕ
  | .single => List.range 10
  | .double => List.range 100
  | .triple => (List.range 100).map fun i => TripleBoard.baseOffset g.triplesTab + i

def View.ringAngle (v : View) (now : ℤ) (ring : RingIndex) : Except String ℚ :=
  match v.gameState.phase, v.drawStartTs with
  | .drawing, some startTs =>
    ringAngleAt ring (v.wheelDigits ring) (v.currentDigits ring) ((now - startTs : ℤ) : ℚ) (ringStopMs ring : ℤ)
  | _, _ => restAngle ring (v.currentDigits ring)

def View.Stopped (v : View) (now : ℤ) (ring : RingIndex) : Prop :=
  v.gameState.phase = .drawing → v.pending = false ∧
    ∀ startTs, v.drawStartTs = some startTs → ringStopMs ring ≤ now - startTs

theorem digitsOf_lt (t : ℕ) (ring : RingIndex) : digitsOf t ring < 10 := by
  match ring with
  | 0 => exact Nat.mod_lt _ (by decide)
  | 1 => exact Nat.mod_lt _ (by decide)
  | 2 => exact Nat.mod_lt _ (by decide)

theorem drawnTriple_le (random : Random) : drawnTriple random ≤ 999 :=
  Nat.le_of_lt_succ (random.floorTimes_lt (by decide))

-- the product of this double and 1000 is below 117, and rounded to it
example : drawnTriple ⟨8430738502437568, 56, by decide, by decide⟩ = 117 := by decide +kernel

structure Drawn (v : View) : Prop where
  result : ∀ result, v.gameState.drawResult = some result → ∃ t ≤ 999, result = drawResultOf t ∧
    (v.gameState.phase = .drawing → v.pending = false →
      v.drawTarget = some (digitsOf t) ∧ ∃ startTs, v.drawStartTs = some startTs)
  wheel : ∀ ring, v.wheelDigits ring < 10
  poll : ∀ p, v.poll = some p → ∀ ring, p.targetDigits ring < 10

theorem Drawn.set (h : Drawn v) (hresult : g.drawResult = v.gameState.drawResult) : Drawn (v.set g) := by
  refine ⟨?_, h.wheel, h.poll⟩
  intro result hr
  obtain ⟨t, ht, heq, htarget⟩ := h.result result (hresult.symm.trans hr)
  refine ⟨t, ht, heq, ?_⟩
  intro hd hp
  simp only [View.set, Bool.or_eq_false_iff, decide_eq_false_iff_not, ne_eq, not_not] at hp
  exact htarget (hp.2 ▸ hd) hp.1

theorem Drawn.runEffects (h : Drawn v) (random : Random) (now : ℤ) : Drawn (v.runEffects random now) := by
  cases hp : v.gameState.phase with
  | drawing =>
    simp only [View.runEffects, hp]
    refine ⟨?_, h.wheel, ?_⟩
    · intro result hr
      cases hr
      exact ⟨drawnTriple random, drawnTriple_le random, rfl, fun _ _ => ⟨rfl, now, rfl⟩⟩
    · intro p hpoll
      cases hpoll
      exact digitsOf_lt _
  | betting | result =>
    simp only [View.runEffects, hp]
    refine ⟨?_, h.wheel, h.poll⟩
    intro result hr
    obtain ⟨t, ht, heq, -⟩ := h.result result hr
    refine ⟨t, ht, heq, ?_⟩
    intro hd
    cases hp.symm.trans hd

theorem Drawn.runPoll (h : Drawn v) {p : Poll} (hp : v.poll = some p) (now : ℤ) (drawTime : String) :
    Drawn (v.runPoll p now drawTime) := by
  have hdigits := h.poll p hp
  simp only [View.runPoll]
  split
  · refine ⟨h.result, h.wheel, ?_⟩
    intro q hq
    cases hq
    exact hdigits
  · apply Drawn.set
    · refine ⟨h.result, hdigits, ?_⟩
      intro q hq
      cases hq
    · rw [GameState.settle]
      split <;> rfl

theorem drawResult_game {code : GameCode} {p : Preview} {result : DrawResult}
    (hr : (p.game code).drawResult = some result) :
    result = drawResultOf 131 ∧ (p.game code).phase = .result := by
  cases p with
  | betting => cases hr
  | win =>
    cases hr
    exact ⟨rfl, rfl⟩

theorem Drawn.preview (h : Drawn v) (code : GameCode) (p : Preview) : Drawn (v.preview (p.game code)) := by
  refine ⟨?_, h.wheel, ?_⟩
  · intro result hr
    obtain ⟨rfl, hp⟩ := drawResult_game hr
    refine ⟨131, by decide, rfl, ?_⟩
    intro hd
    cases hd.symm.trans hp
  · intro q hq
    simp only [View.preview, Option.ite_none_right_eq_some] at hq
    exact h.poll q hq.2

theorem Drawn.digitAtPointer (h : Drawn v)
    (hresult : v.gameState.drawResult = some (drawResultOf t)) {now : ℤ} {ring : RingIndex}
    (hstopped : v.Stopped now ring) :
    (do digitAtPointer ring (← v.ringAngle now ring)) = .ok (digitsOf t ring) := by
  have hlt := digitsOf_lt t ring
  obtain ⟨i, -, -, hrest⟩ := restAngle_spec ring hlt
  have hpoints := digitAtPointer_of_modEq hlt hrest AddCommGroup.modEq_rfl
  by_cases hd : v.gameState.phase = .drawing
  · obtain ⟨t', -, heq, htarget⟩ := h.result _ hresult
    have hsame : t = t' := congrArg DrawResult.triple heq
    subst hsame
    obtain ⟨hpending, htime⟩ := hstopped hd
    obtain ⟨hdigits, startTs, hstart⟩ := htarget hd hpending
    have hcurrent : v.currentDigits = digitsOf t := by simp [View.currentDigits, hd, hdigits]
    obtain ⟨j, -, -, hfrom⟩ := restAngle_spec ring (h.wheel ring)
    have hstop : (0 : ℚ) < (ringStopMs ring : ℤ) := by
      have hpos : ∀ ring, 0 < ringStopMs ring := by decide
      exact_mod_cast hpos ring
    have hlate : ((ringStopMs ring : ℤ) : ℚ) ≤ ((now - startTs : ℤ) : ℚ) := by
      exact_mod_cast htime startTs hstart
    have hangle : v.ringAngle now ring = .ok (mod360 (-(i * segmentDeg))) := by
      simp only [View.ringAngle, hd, hstart, hcurrent]
      rw [ringAngleAt_eq hfrom hrest, spinAngle_of_stop hstop hlate]
    rw [hangle]
    exact hpoints
  · have hcurrent : v.currentDigits = digitsOf t := by
      cases hp : v.gameState.phase with
      | drawing => exact absurd hp hd
      | betting | result => simp [View.currentDigits, hp, hresult, drawResultOf]
    have hangle : v.ringAngle now ring = .ok (mod360 (-(i * segmentDeg))) := by
      cases hp : v.gameState.phase with
      | drawing => exact absurd hp hd
      | betting | result =>
        simp only [View.ringAngle, hp, hcurrent]
        exact hrest
    rw [hangle]
    exact hpoints

end JitoGame.Web
