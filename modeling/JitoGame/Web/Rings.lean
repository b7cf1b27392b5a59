import JitoGame.Remainders
import JitoGame.Web.Wheel
import Mathlib.Algebra.Order.Round
import Mathlib.Analysis.Normed.Field.Lemmas
import Mathlib.Data.Rat.Floor
import Mathlib.Order.Monotone.Union
import Mathlib.Tactic.LinearCombination
import Mathlib.Tactic.NormNum
import Mathlib.Tactic.Positivity

namespace JitoGame.Web

open AddCommGroup Remainders

/-! The geometry of the wheel, `game-core/src/wheel.ts`. -/

variable {ring : RingIndex} {digit fromDigit toDigit : ℕ} {start stop stopMs p q t0 : ℚ}

-- clockwise from the pointer
def ringOrder : RingIndex → List ℕ :=
  ![[5, 0, 6, 4, 7, 3, 8, 2, 9, 1], [9, 1, 5, 0, 6, 4, 7, 3, 8, 2], [4, 7, 3, 8, 2, 9, 1, 5, 0, 6]]

def segmentDeg : ℚ := 360 / 10

-- clockwise is positive
def ringDirection : RingIndex → ℚ := ![-1, 1, -1]

def ringTurns : RingIndex → ℚ := ![5, 7, 9]

-- `((deg % 360) + 360) % 360`
def mod360 (deg : ℚ) : ℚ := residue deg 360

def segmentOf (ring : RingIndex) (digit : ℕ) : Except String ℕ :=
  match (ringOrder ring).idxOf? digit with
  | some i => .ok i
  | none => .error ("digit out of range: " ++ toString digit)

def restAngle (ring : RingIndex) (digit : ℕ) : Except String ℚ :=
  return mod360 (-(← segmentOf ring digit) * segmentDeg)

-- `RING_ORDER[ring][idx]`
def digitAt (ring : RingIndex) (idx : ℤ) : Except String ℕ :=
  match if idx < 0 then none else (ringOrder ring)[idx.toNat]? with
  | some digit => .ok digit
  | none => .error ("segment out of range: " ++ toString idx)

def digitAtPointer (ring : RingIndex) (angle : ℚ) : Except String ℕ :=
  digitAt ring ((round (mod360 (-angle) / segmentDeg)).tmod 10)

def spinProgress (p : ℚ) (t0 : ℚ := 13 / 20) : ℚ :=
  if p ≤ 0 then 0
  else if 1 ≤ p then 1
  else
    let D := 1 - t0
    let v0 := 1 / (t0 + D / 3)
    if p ≤ t0 then v0 * p
    else
      let u := (1 - p) / D
      1 - v0 * D / 3 * (u * u * u)

def spinTotal (ring : RingIndex) (start stop : ℚ) : ℚ :=
  let dir := ringDirection ring
  let delta := if 0 < dir then mod360 (stop - start) else -mod360 (start - stop)
  dir * ringTurns ring * 360 + delta

def ringAngleAt (ring : RingIndex) (fromDigit toDigit : ℕ) (elapsedMs stopMs : ℚ) : Except String ℚ := do
  let start ← restAngle ring fromDigit
  let stop ← restAngle ring toDigit
  if elapsedMs ≤ 0 then return start
  if stopMs ≤ elapsedMs then return stop
  let total := spinTotal ring start stop
  let p := elapsedMs / stopMs
  return start + total * spinProgress p

/-! The digits. -/

theorem segmentOf_spec : ∀ ring, ∀ digit < 10, ∃ i < 10, segmentOf ring digit = .ok i ∧
    (ringOrder ring)[i]? = some digit := by decide

theorem restAngle_spec (ring : RingIndex) (h : digit < 10) : ∃ i : ℕ, i < 10 ∧
    (ringOrder ring)[i]? = some digit ∧ restAngle ring digit = .ok (mod360 (-(i * segmentDeg))) := by
  obtain ⟨i, hi, hsegment, horder⟩ := segmentOf_spec ring digit h
  refine ⟨i, hi, horder, ?_⟩
  rw [restAngle, hsegment, ← neg_mul]
  rfl

theorem restAngle_of_ge (ring : RingIndex) (h : 10 ≤ digit) :
    restAngle ring digit = .error ("digit out of range: " ++ toString digit) := by
  have hdigits : ∀ ring, ∀ d ∈ ringOrder ring, d < 10 := by decide
  have hnone : (ringOrder ring).idxOf? digit = none := by
    rw [List.idxOf?_eq_none_iff]
    intro hmem
    have hlt := hdigits ring digit hmem
    omega
  rw [restAngle, segmentOf, hnone]
  rfl

theorem mod360_mem (deg : ℚ) : 0 ≤ mod360 deg ∧ mod360 deg < 360 := residue_mem (by norm_num)

theorem mod360_modEq (deg : ℚ) : mod360 deg ≡ deg [PMOD 360] := residue_modEq

theorem digitAt_of_getElem {i : ℕ} (h : (ringOrder ring)[i]? = some digit) : digitAt ring i = .ok digit := by
  have hnonneg : ¬ (i : ℤ) < 0 := by omega
  rw [digitAt, if_neg hnonneg, Int.toNat_natCast, h]

theorem digitAtPointer_of_modEq {angle : ℚ} (h : digit < 10) (hstop : restAngle ring digit = .ok stop)
    (ha : angle ≡ stop [PMOD 360]) : digitAtPointer ring angle = .ok digit := by
  obtain ⟨i, hi, horder, hrest⟩ := restAngle_spec ring h
  cases hstop.symm.trans hrest
  have hmod : mod360 (-angle) = i * segmentDeg := by
    have hneg : -angle ≡ i * segmentDeg [PMOD 360] := by
      rw [← neg_neg ((i : ℚ) * segmentDeg), neg_modEq_neg]
      exact ha.trans (mod360_modEq _)
    have hcast : (i : ℚ) < 10 := by exact_mod_cast hi
    have hself : mod360 (i * segmentDeg) = i * segmentDeg := by
      apply residue_of_mem (by norm_num)
      · unfold segmentDeg
        positivity
      · unfold segmentDeg
        linarith
    rw [← hself]
    exact (residue_inj (by norm_num)).mpr hneg
  have hround : round (mod360 (-angle) / segmentDeg) = i := by
    rw [hmod, mul_div_cancel_right₀ _ (by norm_num [segmentDeg]), round_natCast]
  have hidx : (i : ℤ).tmod 10 = i := Int.tmod_eq_of_lt (by omega) (by omega)
  rw [digitAtPointer, hround, hidx, digitAt_of_getElem horder]

/-! The curve of a spin: even speed up to `t0`, then a cubic that comes to rest. -/

def cruising (t0 p : ℚ) : ℚ := 1 / (t0 + (1 - t0) / 3) * p

def slowing (t0 p : ℚ) : ℚ :=
  let u := (1 - p) / (1 - t0)
  1 - 1 / (t0 + (1 - t0) / 3) * (1 - t0) / 3 * (u * u * u)

theorem spinProgress_eq (p t0 : ℚ) : spinProgress p t0 =
    if p ≤ 0 then 0 else if 1 ≤ p then 1 else if p ≤ t0 then cruising t0 p else slowing t0 p := rfl

theorem speed_pos (h₀ : 0 < t0) (h₁ : t0 < 1) : 0 < 1 / (t0 + (1 - t0) / 3) := by
  have hsum : 0 < t0 + (1 - t0) / 3 := by linarith
  positivity

theorem cruising_zero : cruising t0 0 = 0 := mul_zero _

theorem slowing_one : slowing t0 1 = 1 := by simp [slowing]

theorem cruising_eq_slowing (h₀ : 0 < t0) (h₁ : t0 < 1) : cruising t0 t0 = slowing t0 t0 := by
  have hrest : 1 - t0 ≠ 0 := by linarith
  have hsum : t0 + (1 - t0) / 3 ≠ 0 := by linarith
  have hspeed : 1 / (t0 + (1 - t0) / 3) * (t0 + (1 - t0) / 3) = 1 := one_div_mul_cancel hsum
  rw [cruising, slowing, div_self hrest]
  generalize 1 / (t0 + (1 - t0) / 3) = v0 at hspeed ⊢
  linear_combination hspeed

theorem cruising_strictMono (h₀ : 0 < t0) (h₁ : t0 < 1) : StrictMono (cruising t0) := by
  intro p q hpq
  exact mul_lt_mul_of_pos_left hpq (speed_pos h₀ h₁)

theorem slowing_strictMonoOn (h₀ : 0 < t0) (h₁ : t0 < 1) : StrictMonoOn (slowing t0) (Set.Icc t0 1) := by
  intro p _ q hq hpq
  have hrest : 0 < 1 - t0 := by linarith
  have hcoef : 0 < 1 / (t0 + (1 - t0) / 3) * (1 - t0) / 3 := by
    have hspeed := speed_pos h₀ h₁
    positivity
  have hq0 : 0 ≤ (1 - q) / (1 - t0) := div_nonneg (by linarith [hq.2]) (le_of_lt hrest)
  have hlt : (1 - q) / (1 - t0) < (1 - p) / (1 - t0) := div_lt_div_of_pos_right (by linarith) hrest
  have hcube : ((1 - q) / (1 - t0)) ^ 3 < ((1 - p) / (1 - t0)) ^ 3 := pow_lt_pow_left₀ hlt hq0 (by decide)
  have hmul := mul_lt_mul_of_pos_left hcube hcoef
  simp only [slowing, ← pow_three']
  linarith

theorem spinProgress_of_le (h₁ : t0 < 1) (hp : 0 ≤ p) (h : p ≤ t0) :
    spinProgress p t0 = cruising t0 p := by
  rw [spinProgress_eq]
  by_cases hp0 : p ≤ 0
  · rw [if_pos hp0, le_antisymm hp0 hp, cruising_zero]
  · rw [if_neg hp0, if_neg (by linarith), if_pos h]

theorem spinProgress_of_ge (h₀ : 0 < t0) (h₁ : t0 < 1) (h : t0 ≤ p) (hp : p ≤ 1) :
    spinProgress p t0 = slowing t0 p := by
  rw [spinProgress_eq, if_neg (by linarith)]
  by_cases hp1 : 1 ≤ p
  · rw [if_pos hp1, le_antisymm hp hp1, slowing_one]
  · rw [if_neg hp1]
    by_cases hpt : p ≤ t0
    · rw [if_pos hpt, le_antisymm hpt h, cruising_eq_slowing h₀ h₁]
    · rw [if_neg hpt]

theorem spinProgress_strictMonoOn (h₀ : 0 < t0) (h₁ : t0 < 1) :
    StrictMonoOn (fun p => spinProgress p t0) (Set.Icc 0 1) := by
  have hfirst : StrictMonoOn (fun p => spinProgress p t0) (Set.Icc 0 t0) := by
    intro p hp q hq hpq
    simp only [spinProgress_of_le h₁ hp.1 hp.2, spinProgress_of_le h₁ hq.1 hq.2]
    exact cruising_strictMono h₀ h₁ hpq
  have hsecond : StrictMonoOn (fun p => spinProgress p t0) (Set.Icc t0 1) := by
    intro p hp q hq hpq
    simp only [spinProgress_of_ge h₀ h₁ hp.1 hp.2, spinProgress_of_ge h₀ h₁ hq.1 hq.2]
    exact slowing_strictMonoOn h₀ h₁ hp hq hpq
  rw [← Set.Icc_union_Icc_eq_Icc (le_of_lt h₀) (le_of_lt h₁)]
  exact hfirst.union hsecond (isGreatest_Icc (le_of_lt h₀)) (isLeast_Icc (le_of_lt h₁))

theorem spinProgress_of_nonpos (hp : p ≤ 0) : spinProgress p t0 = 0 := by rw [spinProgress_eq, if_pos hp]

theorem spinProgress_of_one_le (hp : 1 ≤ p) : spinProgress p t0 = 1 := by
  rw [spinProgress_eq, if_neg (by linarith), if_pos hp]

theorem spinProgress_mem (h₀ : 0 < t0) (h₁ : t0 < 1) (p : ℚ) :
    0 ≤ spinProgress p t0 ∧ spinProgress p t0 ≤ 1 := by
  by_cases hp0 : p ≤ 0
  · simp [spinProgress_of_nonpos hp0]
  by_cases hp1 : 1 ≤ p
  · simp [spinProgress_of_one_le hp1]
  have hmono := (spinProgress_strictMonoOn h₀ h₁).monotoneOn
  have hmem : p ∈ Set.Icc (0 : ℚ) 1 := ⟨by linarith, by linarith⟩
  have hlow := hmono (Set.left_mem_Icc.mpr zero_le_one) hmem hmem.1
  have hhigh := hmono hmem (Set.right_mem_Icc.mpr zero_le_one) hmem.2
  simp only [spinProgress_of_nonpos (le_refl (0 : ℚ)), spinProgress_of_one_le (le_refl (1 : ℚ))] at hlow hhigh
  exact ⟨hlow, hhigh⟩

theorem spinProgress_continuous (h₀ : 0 < t0) (h₁ : t0 < 1) : Continuous fun p => spinProgress p t0 := by
  have hcruise : Continuous (cruising t0) := by
    unfold cruising
    fun_prop
  have hslow : Continuous (slowing t0) := by
    unfold slowing
    fun_prop
  simp only [spinProgress_eq]
  apply continuous_const.if_le _ continuous_id continuous_const
  · intro p hp
    simp only [id_eq] at hp
    rw [hp, if_neg (by norm_num), if_pos (le_of_lt h₀), cruising_zero]
  · apply continuous_const.if_le _ continuous_const continuous_id
    · intro p hp
      simp only [id_eq] at hp
      rw [← hp, if_neg (by linarith), slowing_one]
    · apply hcruise.if_le hslow continuous_id continuous_const
      intro p hp
      simp only [id_eq] at hp
      rw [hp, cruising_eq_slowing h₀ h₁]

/-! The way of a ring. -/

theorem ringDirection_cases : ∀ ring, ringDirection ring = 1 ∨ ringDirection ring = -1 := by decide

theorem one_le_ringTurns : ∀ ring, 1 ≤ ringTurns ring := by decide +kernel

theorem turns_whole : ∀ ring, ((ringDirection ring * ringTurns ring).num : ℚ) =
    ringDirection ring * ringTurns ring := by decide +kernel

theorem spinTotal_modEq (ring : RingIndex) (start stop : ℚ) :
    spinTotal ring start stop ≡ stop - start [PMOD 360] := by
  simp only [spinTotal]
  rw [← turns_whole ring, ← zsmul_eq_mul]
  apply (zsmul_add_modEq _).trans
  split
  · exact mod360_modEq _
  · have hneg := neg_modEq_neg.mpr (mod360_modEq (start - stop))
    rwa [neg_sub] at hneg

theorem spinTotal_turns (ring : RingIndex) (start stop : ℚ) :
    ringTurns ring * 360 ≤ ringDirection ring * spinTotal ring start stop := by
  have hforth := mod360_mem (stop - start)
  have hback := mod360_mem (start - stop)
  rcases ringDirection_cases ring with h | h
  · simp only [spinTotal, h, zero_lt_one, ↓reduceIte]
    linarith
  · have hneg : ¬ (0 : ℚ) < -1 := by norm_num
    simp only [spinTotal, h, hneg, ↓reduceIte]
    linarith

def spinAngle (ring : RingIndex) (start stop stopMs elapsedMs : ℚ) : ℚ :=
  if elapsedMs ≤ 0 then start
  else if stopMs ≤ elapsedMs then stop
  else start + spinTotal ring start stop * spinProgress (elapsedMs / stopMs)

theorem ringAngleAt_eq (hstart : restAngle ring fromDigit = .ok start)
    (hstop : restAngle ring toDigit = .ok stop) (elapsedMs stopMs : ℚ) :
    ringAngleAt ring fromDigit toDigit elapsedMs stopMs = .ok (spinAngle ring start stop stopMs elapsedMs) := by
  rw [ringAngleAt, hstart, hstop, spinAngle]
  change (if elapsedMs ≤ 0 then Except.ok start else if stopMs ≤ elapsedMs then Except.ok stop
    else Except.ok (start + spinTotal ring start stop * spinProgress (elapsedMs / stopMs))) = _
  split
  · rfl
  · split <;> rfl

theorem spinAngle_of_lt {t : ℚ} (h : 0 ≤ t) (ht : t < stopMs) : spinAngle ring start stop stopMs t =
    start + spinTotal ring start stop * spinProgress (t / stopMs) := by
  rw [spinAngle]
  by_cases h₀ : t ≤ 0
  · rw [if_pos h₀, le_antisymm h₀ h, zero_div, spinProgress_of_nonpos (le_refl 0), mul_zero, add_zero]
  · rw [if_neg h₀, if_neg (not_le.mpr ht)]

theorem spinAngle_of_stop {t : ℚ} (hpos : 0 < stopMs) (ht : stopMs ≤ t) :
    spinAngle ring start stop stopMs t = stop := by
  rw [spinAngle, if_neg (by linarith), if_pos ht]

theorem spinAngle_moves {s t : ℚ} (hs : 0 ≤ s) (hst : s < t) (ht : t < stopMs) :
    0 < ringDirection ring *
      (spinAngle ring start stop stopMs t - spinAngle ring start stop stopMs s) := by
  have hpos : 0 < stopMs := by linarith
  have hmem {x : ℚ} (hx : 0 ≤ x) (hxt : x ≤ t) : x / stopMs ∈ Set.Icc (0 : ℚ) 1 :=
    ⟨div_nonneg hx (le_of_lt hpos), (div_le_one hpos).mpr (by linarith)⟩
  have hprogress : spinProgress (s / stopMs) < spinProgress (t / stopMs) :=
    spinProgress_strictMonoOn (by norm_num) (by norm_num) (hmem hs (le_of_lt hst))
      (hmem (by linarith) (le_refl t)) (div_lt_div_of_pos_right hst hpos)
  have htotal : 0 < ringDirection ring * spinTotal ring start stop := by
    have hturns := spinTotal_turns ring start stop
    have hone := one_le_ringTurns ring
    linarith
  have hmul := mul_pos htotal (sub_pos.mpr hprogress)
  rw [spinAngle_of_lt (by linarith) ht, spinAngle_of_lt hs (by linarith)]
  linarith

theorem spinAngle_within (hstart : 0 ≤ start ∧ start < 360) (hstop : 0 ≤ stop ∧ stop < 360)
    (hpos : 0 < stopMs) (t : ℚ) : 0 ≤ ringDirection ring *
      (start + spinTotal ring start stop - spinAngle ring start stop stopMs t) := by
  have htotal : 360 ≤ ringDirection ring * spinTotal ring start stop := by
    have hturns := spinTotal_turns ring start stop
    have hone := one_le_ringTurns ring
    linarith
  by_cases ht : t < stopMs
  · have hprogress : 0 ≤ spinProgress (t / stopMs) ∧ spinProgress (t / stopMs) ≤ 1 :=
      spinProgress_mem (by norm_num) (by norm_num) _
    by_cases h₀ : 0 ≤ t
    · have hmul : 0 ≤ ringDirection ring * spinTotal ring start stop * (1 - spinProgress (t / stopMs)) :=
        mul_nonneg (by linarith) (by linarith [hprogress.2])
      rw [spinAngle_of_lt h₀ ht]
      linarith
    · rw [spinAngle, if_pos (by linarith)]
      linarith
  · rw [spinAngle_of_stop hpos (not_lt.mp ht)]
    rcases ringDirection_cases ring with h | h <;> rw [h] at htotal ⊢ <;> linarith

structure Spins (ring : RingIndex) (toDigit : ℕ) (start stop stopMs : ℚ) (angle : ℚ → ℚ) : Prop where
  moves : ∀ s t, 0 ≤ s → s < t → t < stopMs → 0 < ringDirection ring * (angle t - angle s)
  within : ∀ t, 0 ≤ ringDirection ring * (start + spinTotal ring start stop - angle t)
  lands : start + spinTotal ring start stop ≡ stop [PMOD 360]
  turns : ringTurns ring * 360 ≤ ringDirection ring * spinTotal ring start stop
  points : ∀ t, stopMs ≤ t → digitAtPointer ring (angle t) = .ok toDigit

theorem ring_motion (ring : RingIndex) (hfrom : fromDigit < 10) (hto : toDigit < 10) (hpos : 0 < stopMs) :
    (∃ start stop angle, restAngle ring fromDigit = .ok start ∧ restAngle ring toDigit = .ok stop ∧
      (∀ t, ringAngleAt ring fromDigit toDigit t stopMs = .ok (angle t)) ∧
      Spins ring toDigit start stop stopMs angle) ∧
    (Continuous fun p => spinProgress p) ∧ ∀ p, 0 ≤ spinProgress p ∧ spinProgress p ≤ 1 := by
  obtain ⟨i, -, -, hstart⟩ := restAngle_spec ring hfrom
  obtain ⟨j, -, -, hstop⟩ := restAngle_spec ring hto
  constructor
  · refine ⟨_, _, _, hstart, hstop, fun t => ringAngleAt_eq hstart hstop t stopMs, ?_⟩
    constructor
    case moves => exact fun s t => spinAngle_moves
    case within => exact spinAngle_within (mod360_mem _) (mod360_mem _) hpos
    case lands =>
      have hmod := (spinTotal_modEq ring (mod360 (-(i * segmentDeg))) (mod360 (-(j * segmentDeg)))).add_left
        (mod360 (-(i * segmentDeg)))
      rwa [add_sub_cancel] at hmod
    case turns => exact spinTotal_turns ring _ _
    case points =>
      intro t ht
      rw [spinAngle_of_stop hpos ht]
      exact digitAtPointer_of_modEq hto hstop modEq_rfl
  · exact ⟨spinProgress_continuous (by norm_num) (by norm_num),
      spinProgress_mem (by norm_num) (by norm_num)⟩

theorem ring_motion_outer : ∃ angle : ℚ → ℚ, (∀ t, ringAngleAt 0 8 5 t 3000 = .ok (angle t)) ∧
    angle 200 < angle 100 ∧ digitAtPointer 0 (angle 3000) = .ok 5 := by
  obtain ⟨⟨start, stop, angle, -, -, hangle, hspins⟩, -⟩ :=
    ring_motion 0 (by decide : 8 < 10) (by decide : 5 < 10) (by norm_num : (0 : ℚ) < 3000)
  have hmoves := hspins.moves 100 200 (by norm_num) (by norm_num) (by norm_num)
  have hdir : ringDirection 0 = -1 := rfl
  rw [hdir] at hmoves
  exact ⟨angle, hangle, by linarith, hspins.points 3000 (le_refl _)⟩

end JitoGame.Web
