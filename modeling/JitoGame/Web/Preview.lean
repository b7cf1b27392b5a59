import JitoGame.Web.Boards

namespace JitoGame.Web

open Tallies Traces

variable {g g' : GameState} {v v' : View} {a : Action} {is : List Input}

/-! The previews of the table: the keys `B` and `W`, `?state=` in the address and the prop
`initialState`, which also decides how the table starts. -/

def winHistory : List HistoryRow :=
  ⟨1, "745TC694", "21:50", "131", "31", "1", some 56, some 18⟩ :: mockHistory.take 5

def winBets : Bets :=
  List.toAList [⟨"double:4", 10⟩, ⟨"double:6", 10⟩, ⟨"double:31", 10⟩, ⟨"double:36", 10⟩,
    ⟨"double:51", 10⟩, ⟨"double:53", 10⟩, ⟨"single:1", 2⟩]

def getWinGameState (code : GameCode) : GameState :=
  { getInitialGameState code with
    phase := .result
    secondsLeft := 0
    pointsBalance := 167193
    playStake := 56
    winAmount := 18
    bets := winBets
    triplesTab := 1
    drawResult := some ⟨131, 31, 1⟩
    recentHistory := winHistory
    statusMessage := "YOU WIN" }

inductive Preview
  | betting
  | win

def Preview.game (code : GameCode) : Preview → GameState
  | .betting => getInitialGameState code
  | .win => getWinGameState code

def View.preview (v : View) (game : GameState) : View :=
  -- the end of a phase clears the interval of its effects
  { v.set game with poll := if game.phase = v.gameState.phase then v.poll else none }

inductive Input
  | event (e : Event)
  | preview (code : GameCode) (p : Preview)
  -- the key `V`
  | video

def Input.step (v : View) : Input → Option View
  | .event e => JitoGame.Web.step v e
  | .preview code p => some (v.preview (p.game code))
  | .video => some { v with showWinVideo := !v.showWinVideo }

namespace GameState

/-- `Funded`, but for the result, where a preview stakes less than it has on the board. -/
structure Sound (g : GameState) : Prop where
  chip : 0 < g.selectedChip
  chips : ∀ c ∈ g.availableChips, 0 < c
  bets : Positive g.bets
  previousBets : Positive g.previousBets
  gap : g.phase ≠ .result → 0 ≤ g.gap
  balance : 0 ≤ g.pointsBalance

theorem Sound.funded (h : Sound g) (hp : g.phase ≠ .result) : Funded g :=
  ⟨h.chip, h.chips, h.bets, h.previousBets, h.gap hp, h.balance⟩

theorem Funded.sound (h : Funded g) : Sound g :=
  ⟨h.chip, h.chips, h.bets, h.previousBets, fun _ => h.gap, h.balance⟩

theorem isLocked_of_phase (hp : g.phase ≠ .betting) : g.isLocked = true := by
  simp [isLocked, hp]

theorem act_of_locked (hl : g.isLocked = true) (ha : g.act a = some g') :
    g' = { g with selectedChip := g'.selectedChip, triplesTab := g'.triplesTab } ∧
      (g'.selectedChip = g.selectedChip ∨ g'.selectedChip ∈ g.availableChips) := by
  cases a with
  | selectChip val =>
    simp only [act, Option.ite_none_right_eq_some, Option.some.injEq] at ha
    obtain ⟨hval, rfl⟩ := ha
    exact ⟨rfl, .inr (List.mem_of_mem_filter hval)⟩
  | selectTab t =>
    simp only [act, Option.ite_none_right_eq_some, Option.some.injEq] at ha
    obtain ⟨-, rfl⟩ := ha
    exact ⟨rfl, .inl rfl⟩
  | place type value => cases ha; simp [handlePlaceBet, hl]
  | remove type value => cases ha; simp [handleRemoveBet, hl]
  | quickRow s row => cases ha; simp [handleQuickRow, quick, hl]
  | quickCol s col => cases ha; simp [handleQuickCol, quick, hl]
  | quickRowUndo s row => cases ha; simp [handleQuickRowUndo, quickUndo, hl]
  | quickColUndo s col => cases ha; simp [handleQuickColUndo, quickUndo, hl]
  | randomPick s count random => cases ha; simp [handleRandomPick, hl]
  | double => cases ha; simp [handleDouble, hl]
  | repeatLast => cases ha; simp [handleRepeat, hl]
  | clear => cases ha; simp [handleClear, hl]

theorem Sound.act (h : Sound g) (ha : g.act a = some g') : Sound g' := by
  by_cases hp : g.phase = .result
  · have hl := isLocked_of_phase (g := g) (by rw [hp]; decide)
    obtain ⟨heq, hchip⟩ := act_of_locked hl ha
    have hpos : 0 < g'.selectedChip := by
      rcases hchip with hsame | hmem
      · rw [hsame]
        exact h.chip
      · exact h.chips _ hmem
    rw [heq]
    exact ⟨hpos, h.chips, h.bets, h.previousBets, fun hne => absurd hp hne, h.balance⟩
  · exact (act_acted (h.funded hp) ha).funded.sound

theorem Sound.reopen (h : Sound g) (hp : g.phase = .result) : Sound g.reopen := by
  have hreopen : g.reopen.gap = 0 := gap_reopen hp
  rw [GameState.reopen, if_neg (not_not_intro hp)] at hreopen ⊢
  exact ⟨h.chip, h.chips, positive_empty, h.bets, fun _ => le_of_eq hreopen.symm, h.balance⟩

end GameState

open GameState

end JitoGame.Web
