import JitoGame.Web.Draws

namespace JitoGame.Web

open Tallies Traces

variable {code : GameCode} {v v' w : View} {e : Event} {es : List Event}

def GameState.held (g : GameState) : ℤ := g.pointsBalance + g.playStake

def Opens (code : GameCode) (v : View) : Prop :=
  v = initialView code ∨ ∃ u, Reached code u ∧ step u .reopen = some v

theorem Opens.spec (h : Opens code v) :
    Regular v ∧ v.gameState.phase = .betting ∧ v.gameState.playStake = 0 := by
  rcases h with rfl | ⟨u, hu, hstep⟩
  · exact ⟨⟨funded_initial code, polled_initial code⟩, rfl, rfl⟩
  · refine ⟨regular_keeps u _ v hstep hu.regular, ?_⟩
    cases step_cases hstep with
    | reopen hp =>
      change u.gameState.reopen.phase = _ ∧ u.gameState.reopen.playStake = _
      simp [GameState.reopen, hp]

/-- The arguments of the clamps of the removal handlers. -/
structure GameState.Covered (g : GameState) : Prop where
  removal : ∀ type value,
    0 ≤ g.playStake - min (amount g.bets (cellKey type value)) g.selectedChip
  undo : ∀ keys, 0 ≤ g.playStake - (undoCells g.selectedChip keys g.bets).2

end JitoGame.Web
