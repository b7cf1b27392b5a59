import JitoGame.Tallies

namespace JitoGame.Web

open Tallies

inductive GameCode
  | tct
  | tcpt
  deriving DecidableEq

inductive BetType
  | single
  | double
  | triple
  deriving DecidableEq

inductive GamePhase
  | betting
  | drawing
  | result
  deriving DecidableEq

structure DrawResult where
  triple : ℕ
  double : ℕ
  single : ℕ
  deriving DecidableEq

structure HistoryRow where
  sno : ℕ
  gameId : String
  drawTime : String
  triple : String
  double : String
  single : String
  played : Option ℤ
  won : Option ℤ
  deriving DecidableEq

def BetType.text : BetType → String
  | .single => "single"
  | .double => "double"
  | .triple => "triple"

def BetType.ofText? (s : String) : Option BetType :=
  [BetType.single, .double, .triple].find? fun type => type.text = s

def cellKey (type : BetType) (value : ℕ) : String := type.text ++ ":" ++ toString value

-- `Record<string, number>`
abbrev Bets := Tally String

structure GameState where
  code : GameCode
  name : String
  gameId : String
  phase : GamePhase
  secondsLeft : ℕ
  pointsBalance : ℤ
  playStake : ℤ
  winAmount : ℤ
  selectedChip : ℤ
  availableChips : List ℤ
  bets : Bets
  previousBets : Bets
  triplesTab : ℕ
  drawResult : Option DrawResult
  recentHistory : List HistoryRow
  statusMessage : String
  deriving DecidableEq

def mockHistory : List HistoryRow :=
  [⟨1, "745TC693", "21:48", "751", "51", "1", some 120, some 360⟩,
    ⟨2, "745TC692", "21:46", "314", "14", "4", some 50, some 0⟩,
    ⟨3, "745TC691", "21:44", "050", "50", "0", some 200, some 900⟩,
    ⟨4, "745TC690", "21:42", "571", "71", "1", some 80, some 0⟩,
    ⟨5, "745TC689", "21:40", "929", "29", "9", some 100, some 270⟩,
    ⟨6, "745TC688", "21:38", "853", "53", "3", some 40, some 0⟩]

def getInitialGameState (code : GameCode) : GameState where
  code
  name := match code with
    | .tcpt => "Triple Chance Pro Timer"
    | .tct => "Triple Chance Timer"
  gameId := match code with
    | .tcpt => "625TCP412"
    | .tct => "745TC694"
  phase := .betting
  secondsLeft := 37
  pointsBalance := 167249
  playStake := 0
  winAmount := 0
  selectedChip := 2
  availableChips := match code with
    | .tcpt => [2, 5, 10, 30, 40, 50, 100, 500]
    | .tct => [2, 5, 10, 20, 30, 40, 50, 100, 500]
  bets := ∅
  previousBets := ∅
  triplesTab := 0
  drawResult := none
  recentHistory := mockHistory
  statusMessage := "Place your chips"

end JitoGame.Web
