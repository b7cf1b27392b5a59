import JitoGame.Web.Handlers

namespace JitoGame.Web

open Tallies Traces

variable {v v' : View} {e : Event}

inductive Moves (v : View) : Event → View → Prop
  | act {a : Action} {g : GameState} (ha : v.gameState.act a = some g) : Moves v (.act a) (v.set g)
  | countdown (hp : v.gameState.phase = .betting) (hv : v.pending = false) :
    Moves v .countdown (v.set v.gameState.countdown)
  | effects {random : Random} {now : ℤ} (hv : v.pending = true) :
    Moves v (.effects random now) (v.runEffects random now)
  | poll {p : Poll} {now : ℤ} {drawTime : String} (hp : v.poll = some p) :
    Moves v (.poll now drawTime) (v.runPoll p now drawTime)
  | reopen (hp : v.gameState.phase = .result) (hv : v.pending = false) :
    Moves v .reopen (v.set v.gameState.reopen)
  | videoEnd : Moves v .videoEnd { v with showWinVideo := false }

theorem step_cases (h : step v e = some v') : Moves v e v' := by
  cases e with
  | act a =>
    obtain ⟨g, hg, rfl⟩ := Option.map_eq_some_iff.mp h
    exact .act hg
  | countdown =>
    simp only [step, Option.ite_none_right_eq_some, Option.some.injEq] at h
    obtain ⟨⟨hp, hv⟩, rfl⟩ := h
    exact .countdown hp hv
  | effects random now =>
    simp only [step, Option.ite_none_right_eq_some, Option.some.injEq] at h
    obtain ⟨hv, rfl⟩ := h
    exact .effects hv
  | poll now drawTime =>
    obtain ⟨p, hp, rfl⟩ := Option.map_eq_some_iff.mp h
    exact .poll hp
  | reopen =>
    simp only [step, Option.ite_none_right_eq_some, Option.some.injEq] at h
    obtain ⟨⟨hp, hv⟩, rfl⟩ := h
    exact .reopen hp hv
  | videoEnd =>
    cases h
    exact .videoEnd

theorem runEffects_gameState (v : View) (random : Random) (now : ℤ) :
    (v.runEffects random now).gameState = v.gameState ∨ (v.runEffects random now).gameState =
      { v.gameState with drawResult := some (drawResultOf (drawnTriple random)) } := by
  cases hp : v.gameState.phase <;> simp [View.runEffects, hp]

theorem runPoll_gameState (v : View) (p : Poll) (now : ℤ) (drawTime : String) :
    (v.runPoll p now drawTime).gameState = v.gameState ∨
      (v.runPoll p now drawTime).gameState = v.gameState.settle p.result drawTime := by
  simp only [View.runPoll]
  split
  · exact .inl rfl
  · exact .inr rfl

theorem funded_keeps : Preserves step fun v => v.gameState.Funded := by
  intro v e v' hstep h
  cases step_cases hstep with
  | act ha => exact (GameState.act_acted h ha).funded
  | countdown => exact h.countdown
  | @effects random now =>
    rcases runEffects_gameState v random now with heq | heq <;> rw [heq]
    · exact h
    · exact h.of_same rfl rfl rfl rfl rfl (le_refl _)
  | @poll p now drawTime =>
    rcases runPoll_gameState v p now drawTime with heq | heq <;> rw [heq]
    · exact h
    · exact h.settle _ _
  | reopen => exact h.reopen
  | videoEnd => exact h

theorem funded_initial (code : GameCode) : (initialView code).gameState.Funded where
  chip := by simp [initialView, getInitialGameState]
  chips := by cases code <;> decide
  bets := positive_empty
  previousBets := positive_empty
  gap := le_refl _
  balance := by simp [initialView, getInitialGameState]

def half : Random := ⟨2 ^ 52, 53, by decide, by decide⟩

def quarter : Random := ⟨2 ^ 51, 53, by decide, by decide⟩

def anyRound (actions : List Action) : List Event :=
  .effects half 0 :: actions.map .act ++ List.replicate 37 .countdown ++
    [.effects half 1000, .poll 11000 "12:00", .effects half 11100, .reopen]

end JitoGame.Web
