import JitoGame.Remainders
import Mathlib.Data.Rat.Floor
import Mathlib.Tactic.NormNum

namespace JitoGame.Web

open AddCommGroup Remainders

/-! The engine of the other wheel, `game-core/src/wheel-renderer.ts`. -/

inductive WheelAnimationState
  | idle
  | active
  | rotating
  | slowing
  | resultAlignment
  | finalResult
  deriving DecidableEq

structure WheelTargetResult where
  triple : ℕ
  double : ℕ
  single : ℕ

def calculateTargetAngle (digit : ℕ) (currentAngle : ℚ) (extraRotations : ℤ) : ℚ :=
  let segmentAngle : ℚ := 360 / 10
  let targetSegmentCenter := digit * segmentAngle
  let desiredBase := remainder (360 - targetSegmentCenter) 360
  let currentNormalized := remainder (remainder currentAngle 360 + 360) 360
  let diff := desiredBase - currentNormalized
  let diff := if diff < 0 then diff + 360 else diff
  currentAngle + diff + extraRotations * 360

structure WheelEngine where
  state : WheelAnimationState := .idle
  outerAngle : ℚ := 0
  middleAngle : ℚ := 0
  innerAngle : ℚ := 0
  currentResult : Option String := none
  targetResult : Option WheelTargetResult := none

structure TargetAngles where
  targetOuter : ℚ
  targetMiddle : ℚ
  targetInner : ℚ

namespace WheelEngine

variable (e : WheelEngine)

def setAngles (outer middle inner : ℚ) : WheelEngine :=
  { e with outerAngle := outer, middleAngle := middle, innerAngle := inner }

def setTargetResult (target : WheelTargetResult) : WheelEngine × TargetAngles :=
  ({ e with targetResult := some target, state := .rotating, currentResult := none },
    { targetOuter := calculateTargetAngle target.triple e.outerAngle 5
      targetMiddle := calculateTargetAngle target.double e.middleAngle 4
      targetInner := calculateTargetAngle target.single e.innerAngle 3 })

def finalizeResult : WheelEngine :=
  match e.targetResult with
  | some target =>
    { e with
      currentResult := some (toString target.triple ++ toString target.double ++ toString target.single)
      state := .finalResult }
  | none => e

/-- A spin as `PhaserWheel` runs it to its end. -/
def spin (target : WheelTargetResult) : WheelEngine :=
  let (e, aims) := e.setTargetResult target
  (e.setAngles aims.targetOuter aims.targetMiddle aims.targetInner).finalizeResult

end WheelEngine

def RestsOn (angle : ℚ) (digit : ℕ) : Prop := angle ≡ -36 * digit [PMOD 360]

theorem restsOn_unique {angle : ℚ} {d d' : ℕ} (hd : d < 10) (hd' : d' < 10) (h : RestsOn angle d)
    (h' : RestsOn angle d') : d = d' := by
  obtain ⟨z, hz⟩ := modEq_iff_eq_add_zsmul.mp (h.symm.trans h')
  rw [zsmul_eq_mul] at hz
  have hint : -36 * (d' : ℤ) = -36 * d + z * 360 := by exact_mod_cast hz
  omega

structure Aims (digit : ℕ) (current : ℚ) (extraRotations : ℤ) (target : ℚ) : Prop where
  rests : RestsOn target digit
  least : extraRotations * 360 ≤ target - current
  most : target - current < (extraRotations + 1) * 360

theorem aims_of_base {digit : ℕ} {base normalized currentAngle : ℚ} (hb : 0 ≤ base ∧ base < 360)
    (hn : 0 ≤ normalized ∧ normalized < 360) (hbase : RestsOn base digit)
    (hcurrent : normalized ≡ currentAngle [PMOD 360]) (extraRotations : ℤ) :
    Aims digit currentAngle extraRotations (currentAngle +
      (if base - normalized < 0 then base - normalized + 360 else base - normalized) +
      extraRotations * 360) := by
  obtain ⟨y, hy⟩ := modEq_iff_eq_add_zsmul.mp hcurrent
  obtain ⟨z, hz⟩ := modEq_iff_eq_add_zsmul.mp hbase
  rw [zsmul_eq_mul] at hy hz
  constructor
  case rests =>
    rw [RestsOn, modEq_iff_eq_add_zsmul]
    by_cases hdiff : base - normalized < 0
    · refine ⟨z - y - extraRotations - 1, ?_⟩
      rw [if_pos hdiff, zsmul_eq_mul]
      push_cast
      linarith
    · refine ⟨z - y - extraRotations, ?_⟩
      rw [if_neg hdiff, zsmul_eq_mul]
      push_cast
      linarith
  case least => split <;> linarith
  case most => split <;> linarith

theorem calculateTargetAngle_aims {digit : ℕ} (h : digit < 10) (currentAngle : ℚ) (extraRotations : ℤ) :
    Aims digit currentAngle extraRotations (calculateTargetAngle digit currentAngle extraRotations) := by
  have hcast : (digit : ℚ) < 10 := by exact_mod_cast h
  have hcenter : (0 : ℚ) ≤ 360 - digit * (360 / 10) := by linarith
  have hbase : RestsOn (remainder (360 - digit * (360 / 10)) 360) digit := by
    apply remainder_modEq.trans
    rw [modEq_iff_eq_add_zsmul]
    refine ⟨-1, ?_⟩
    rw [zsmul_eq_mul]
    push_cast
    ring
  exact aims_of_base (remainder_of_nonneg (by norm_num) hcenter) (residue_mem (by norm_num)) hbase
    residue_modEq extraRotations

namespace WheelEngine

def spins (e : WheelEngine) (targets : List WheelTargetResult) : WheelEngine := targets.foldl spin e

theorem spin_angles (e : WheelEngine) (target : WheelTargetResult) :
    (e.spin target).outerAngle = calculateTargetAngle target.triple e.outerAngle 5 ∧
      (e.spin target).middleAngle = calculateTargetAngle target.double e.middleAngle 4 ∧
      (e.spin target).innerAngle = calculateTargetAngle target.single e.innerAngle 3 := ⟨rfl, rfl, rfl⟩

theorem spins_turn (e : WheelEngine) {targets : List WheelTargetResult}
    (h : ∀ target ∈ targets, target.triple < 10 ∧ target.double < 10 ∧ target.single < 10) :
    e.outerAngle + targets.length * 1800 ≤ (e.spins targets).outerAngle ∧
      e.middleAngle + targets.length * 1440 ≤ (e.spins targets).middleAngle ∧
      e.innerAngle + targets.length * 1080 ≤ (e.spins targets).innerAngle := by
  induction targets generalizing e with
  | nil => simp [spins]
  | cons target targets ih =>
    obtain ⟨htriple, hdouble, hsingle⟩ := h target List.mem_cons_self
    have houter := (calculateTargetAngle_aims htriple e.outerAngle 5).least
    have hmiddle := (calculateTargetAngle_aims hdouble e.middleAngle 4).least
    have hinner := (calculateTargetAngle_aims hsingle e.innerAngle 3).least
    obtain ⟨ho, hm, hi⟩ := spin_angles e target
    obtain ⟨ho', hm', hi'⟩ := ih (e.spin target) fun t ht => h t (List.mem_cons_of_mem target ht)
    have hcons : e.spins (target :: targets) = (e.spin target).spins targets := rfl
    rw [hcons, List.length_cons]
    push_cast at houter hmiddle hinner ⊢
    refine ⟨?_, ?_, ?_⟩ <;> linarith

theorem spins_rest (e : WheelEngine) (targets : List WheelTargetResult) {target : WheelTargetResult}
    (htriple : target.triple < 10) (hdouble : target.double < 10) (hsingle : target.single < 10)
    {before : WheelEngine} (hb : before = e.spins targets) {aims : TargetAngles}
    (ha : aims = (before.setTargetResult target).2) :
    Aims target.triple before.outerAngle 5 aims.targetOuter ∧
      Aims target.double before.middleAngle 4 aims.targetMiddle ∧
      Aims target.single before.innerAngle 3 aims.targetInner ∧
    ∀ after, after = e.spins (targets ++ [target]) → RestsOn after.outerAngle target.triple ∧
      RestsOn after.middleAngle target.double ∧ RestsOn after.innerAngle target.single := by
  have houter := calculateTargetAngle_aims htriple before.outerAngle 5
  have hmiddle := calculateTargetAngle_aims hdouble before.middleAngle 4
  have hinner := calculateTargetAngle_aims hsingle before.innerAngle 3
  rw [ha]
  refine ⟨houter, hmiddle, hinner, ?_⟩
  intro after hafter
  have hlast : after = before.spin target := by
    rw [hafter, hb, spins, List.foldl_append]
    rfl
  obtain ⟨ho, hm, hi⟩ := spin_angles before target
  rw [hlast, ho, hm, hi]
  exact ⟨houter.rests, hmiddle.rests, hinner.rests⟩

theorem spins_rest_nine : RestsOn (spins { innerAngle := -1000 / 3 } [⟨7, 7, 2⟩, ⟨0, 5, 9⟩]).outerAngle 0 ∧
    RestsOn (spins { innerAngle := -1000 / 3 } [⟨7, 7, 2⟩, ⟨0, 5, 9⟩]).middleAngle 5 ∧
    RestsOn (spins { innerAngle := -1000 / 3 } [⟨7, 7, 2⟩, ⟨0, 5, 9⟩]).innerAngle 9 := by
  have htriple : (⟨0, 5, 9⟩ : WheelTargetResult).triple < 10 := by decide
  have hdouble : (⟨0, 5, 9⟩ : WheelTargetResult).double < 10 := by decide
  have hsingle : (⟨0, 5, 9⟩ : WheelTargetResult).single < 10 := by decide
  exact (spins_rest { innerAngle := -1000 / 3 } [⟨7, 7, 2⟩] htriple hdouble hsingle rfl rfl).2.2.2 _ rfl

end WheelEngine

end JitoGame.Web
