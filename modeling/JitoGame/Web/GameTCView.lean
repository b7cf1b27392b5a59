import JitoGame.Traces
import JitoGame.Web.Table
import JitoGame.Web.Wheel

namespace JitoGame.Web

inductive Action
  | place (type : BetType) (value : ℕ)
  | remove (type : BetType) (value : ℕ)
  | quickRow (s : Section) (row : ℕ)
  | quickCol (s : Section) (col : ℕ)
  | quickRowUndo (s : Section) (row : ℕ)
  | quickColUndo (s : Section) (col : ℕ)
  | randomPick (s : Section) (count : ℤ) (random : ℕ → Random)
  | double
  | repeatLast
  | clear
  | selectChip (val : ℤ)
  | selectTab (t : ℕ)

structure Poll where
  result : DrawResult
  targetDigits : Digits
  startTs : ℤ
  firedCount : ℕ
  -- of the latest poll; 0 before the first one
  elapsed : ℤ

structure View where
  gameState : GameState
  wheelDigits : Digits
  drawTarget : Option Digits
  drawStartTs : Option ℤ
  revealed : ℕ
  showWinVideo : Bool
  -- the effects of the last change of phase have yet to run
  pending : Bool
  poll : Option Poll

inductive Event
  | act (a : Action)
  -- the betting countdown
  | countdown
  | effects (random : Random) (now : ℤ)
  | poll (now : ℤ) (drawTime : String)
  -- 4 s after the result
  | reopen
  | videoEnd

def initialView (code : GameCode) : View :=
  ⟨getInitialGameState code, ![5, 9, 4], none, none, 0, false, true, none⟩

-- the chips that have a sprite
def chipSprites : List ℤ := [2, 5, 10, 20, 30, 40, 50, 100, 500]

def chipsToRender (g : GameState) : List ℤ := g.availableChips.filter fun c => c ∈ chipSprites

def tabs : List ℕ := List.range 10

def GameState.act (g : GameState) : Action → Option GameState
  | .place type value => some (g.handlePlaceBet type value)
  | .remove type value => some (g.handleRemoveBet type value)
  | .quickRow s row => some (g.handleQuickRow s row)
  | .quickCol s col => some (g.handleQuickCol s col)
  | .quickRowUndo s row => some (g.handleQuickRowUndo s row)
  | .quickColUndo s col => some (g.handleQuickColUndo s col)
  | .randomPick s count random => some (g.handleRandomPick s count random)
  | .double => some g.handleDouble
  | .repeatLast => some g.handleRepeat
  | .clear => some g.handleClear
  | .selectChip val => if val ∈ chipsToRender g then some { g with selectedChip := val } else none
  | .selectTab t => if t ∈ tabs then some { g with triplesTab := t } else none

def GameState.countdown (g : GameState) : GameState :=
  if 1 < g.secondsLeft then
    let nextSeconds := g.secondsLeft - 1
    let nextStatus :=
      if nextSeconds ≤ 5 then "No More Play"
      else if nextSeconds ≤ 15 ∧ g.statusMessage = "Place your chips" then "LAST CHANCE"
      else g.statusMessage
    { g with secondsLeft := nextSeconds, statusMessage := nextStatus }
  else { g with secondsLeft := 0, phase := .drawing, statusMessage := "No More Play" }

def padStart (n : ℕ) (s : String) : String := "".pushn '0' (n - s.length) ++ s

def historyRow (g : GameState) (result : DrawResult) (winAmount : ℤ) (drawTime : String) :
    HistoryRow :=
  ⟨((g.recentHistory.head?.map (·.sno)).getD 0) + 1, g.gameId, drawTime,
    padStart 3 (toString result.triple), padStart 2 (toString result.double), toString result.single,
    some g.playStake, some winAmount⟩

def GameState.settle (g : GameState) (result : DrawResult) (drawTime : String) : GameState :=
  if g.phase ≠ .drawing then g
  else
    let winAmount := settleBets g.bets result
    { g with
      phase := .result
      winAmount
      pointsBalance := g.pointsBalance + winAmount
      statusMessage := if 0 < winAmount then "YOU WIN" else "Better luck next time"
      recentHistory := historyRow g result winAmount drawTime :: g.recentHistory.take 5 }

def GameState.reopen (g : GameState) : GameState :=
  if g.phase ≠ .result then g
  else
    { g with
      secondsLeft := 37
      phase := .betting
      statusMessage := "Place your chips"
      previousBets := g.bets
      bets := ∅
      playStake := 0 }

/-- `game` becomes the game's state; a change of phase leaves effects to run. -/
def View.set (v : View) (game : GameState) : View :=
  { v with gameState := game, pending := v.pending || (game.phase ≠ v.gameState.phase) }

def drawnTriple (random : Random) : ℕ := random.floorTimes 1000

def drawResultOf (triple : ℕ) : DrawResult := ⟨triple, triple % 100, triple % 10⟩

def View.runEffects (v : View) (random : Random) (now : ℤ) : View :=
  match v.gameState.phase with
  | .betting => { v with pending := false, revealed := 0 }
  | .drawing =>
    let triple := drawnTriple random
    { v with
      pending := false
      showWinVideo := false
      drawTarget := some (digitsOf triple)
      drawStartTs := some now
      revealed := 0
      gameState := { v.gameState with drawResult := some (drawResultOf triple) }
      poll := some ⟨drawResultOf triple, digitsOf triple, now, 0, 0⟩ }
  | .result => { v with pending := false }

def View.runPoll (v : View) (p : Poll) (now : ℤ) (drawTime : String) : View :=
  let elapsed := now - p.startTs
  let count := revealedDigitCount elapsed
  let v := { v with
    revealed := if p.firedCount < count then count else v.revealed
    poll := some { p with firedCount := max p.firedCount count, elapsed } }
  if elapsed < drawTotalMs then v
  else
    let won := v.gameState.phase = .drawing ∧ 1000 ≤ settleBets v.gameState.bets p.result
    { v with
      poll := none
      wheelDigits := p.targetDigits
      showWinVideo := won || v.showWinVideo }.set (v.gameState.settle p.result drawTime)

def step (v : View) : Event → Option View
  | .act a => (v.gameState.act a).map v.set
  | .countdown =>
    if v.gameState.phase = .betting ∧ v.pending = false then some (v.set v.gameState.countdown)
    else none
  | .effects random now => if v.pending then some (v.runEffects random now) else none
  | .poll now drawTime => v.poll.map fun p => v.runPoll p now drawTime
  | .reopen =>
    if v.gameState.phase = .result ∧ v.pending = false then some (v.set v.gameState.reopen) else none
  | .videoEnd => some { v with showWinVideo := false }

/-! What the wheel is handed. -/

def View.isWin (v : View) : Bool := v.gameState.phase = .result ∨ 0 < v.gameState.winAmount

def View.currentDigits (v : View) : Digits :=
  match v.gameState.phase with
  | .drawing => v.drawTarget.getD v.wheelDigits
  | .betting | .result => (v.gameState.drawResult.map fun r => digitsOf r.triple).getD v.wheelDigits

-- the prop `revealed` of the wheel
def View.shown (v : View) : ℕ := if v.isWin then 3 else v.revealed

end JitoGame.Web
