import JitoGame.Web.GameState

namespace JitoGame.Web

open Tallies

/-- What `Math.random()` returns: the double `m * 2 ^ -e`, which is less than 1. -/
structure Random where
  m : ℕ
  e : ℕ
  fits : m < 2 ^ 53
  range : 53 ≤ e ∧ e ≤ 1074

-- `p` to the 53 bits of a double, ties to even
def roundBits (p : ℕ) : ℕ :=
  let ulp := 2 ^ (p.log2 - 52)
  if 2 * (p % ulp) < ulp ∨ 2 * (p % ulp) = ulp ∧ p / ulp % 2 = 0 then p / ulp * ulp
  else (p / ulp + 1) * ulp

-- `Math.floor(Math.random() * n)`
def Random.floorTimes (random : Random) (n : ℕ) : ℕ := roundBits (random.m * n) / 2 ^ random.e

inductive Section
  | double
  | triple
  deriving DecidableEq

def Section.type : Section → BetType
  | .double => .double
  | .triple => .triple

def payout : BetType → ℤ
  | .single => 9
  | .double => 90
  | .triple => 900

def number? (s : List Char) : Option ℕ :=
  if s ≠ [] ∧ s.all Char.isDigit then some (Nat.ofDigitChars 10 s 0) else none

-- `key.split(':')`
def splitKey? (key : String) : Option (BetType × ℕ) :=
  match key.toList.splitOn ':' with
  | type :: valueStr :: _ => do return (← BetType.ofText? (String.ofList type), ← number? valueStr)
  | _ => none

def DrawResult.target (result : DrawResult) : BetType → ℕ
  | .single => result.single
  | .double => result.double
  | .triple => result.triple

def cellWin (result : DrawResult) (key : String) (stake : ℤ) : ℤ :=
  match splitKey? key with
  | some (type, value) => if value = result.target type then stake * payout type else 0
  | none => 0

def settleBets (bets : Bets) (result : DrawResult) : ℤ :=
  bets.entries.foldl (fun winAmount e => winAmount + cellWin result e.1 e.2) 0

namespace GameState

variable (g : GameState)

def isLocked : Bool := g.phase ≠ .betting ∨ g.secondsLeft ≤ 5

def hasBets : Bool := 0 < g.bets.keys.length

def hasPreviousBets : Bool := 0 < g.previousBets.keys.length

def say (statusMessage : String) : GameState := { g with statusMessage }

def insufficient : GameState := g.say "Insufficient points balance."

def stake (cost : ℤ) (bets : Bets) : GameState :=
  { g with pointsBalance := g.pointsBalance - cost, playStake := g.playStake + cost, bets }

def refund (refunded : ℤ) (bets : Bets) : GameState :=
  { g with
    pointsBalance := g.pointsBalance + refunded
    playStake := max 0 (g.playStake - refunded)
    bets }

def handlePlaceBet (type : BetType) (value : ℕ) : GameState :=
  if g.isLocked then g
  else
    let chip := g.selectedChip
    if g.pointsBalance < chip then g.insufficient
    else
      let key := cellKey type value
      g.stake chip (g.bets.insert key (amount g.bets key + chip))

def lowered (bets : Bets) (key : String) (stake decrement : ℤ) : Bets :=
  if stake - decrement ≤ 0 then bets.erase key else bets.insert key (stake - decrement)

def handleRemoveBet (type : BetType) (value : ℕ) : GameState :=
  if g.isLocked then g
  else
    let key := cellKey type value
    let stake := amount g.bets key
    if stake = 0 then g
    else
      let decrement := min stake g.selectedChip
      g.refund decrement (lowered g.bets key stake decrement)

def base : Section → ℕ
  | .triple => g.triplesTab * 100
  | .double => 0

def rowCells (s : Section) (row : ℕ) : List String :=
  (List.range 10).map fun c => cellKey s.type (g.base s + row * 10 + c)

def colCells (s : Section) (col : ℕ) : List String :=
  (List.range 10).map fun r => cellKey s.type (g.base s + r * 10 + col)

def stakeCells (chip : ℤ) (keys : List String) (bets : Bets) : Bets :=
  keys.foldl (fun nextBets key => nextBets.insert key (amount nextBets key + chip)) bets

def quick (keys : List String) : GameState :=
  if g.isLocked then g
  else
    let chip := g.selectedChip
    let totalCost := chip * 10
    if g.pointsBalance < totalCost then g.insufficient
    else g.stake totalCost (stakeCells chip keys g.bets)

def handleQuickRow (s : Section) (row : ℕ) : GameState := g.quick (g.rowCells s row)

def handleQuickCol (s : Section) (col : ℕ) : GameState := g.quick (g.colCells s col)

def undoCell (chip : ℤ) (acc : Bets × ℤ) (key : String) : Bets × ℤ :=
  let currentStake := amount acc.1 key
  if 0 < currentStake then
    let decrement := min currentStake chip
    (lowered acc.1 key currentStake decrement, acc.2 + decrement)
  else acc

def undoCells (chip : ℤ) (keys : List String) (bets : Bets) : Bets × ℤ :=
  keys.foldl (undoCell chip) (bets, 0)

def quickUndo (keys : List String) : GameState :=
  if g.isLocked then g
  else
    let (nextBets, refunded) := undoCells g.selectedChip keys g.bets
    if refunded = 0 then g else g.refund refunded nextBets

def handleQuickRowUndo (s : Section) (row : ℕ) : GameState := g.quickUndo (g.rowCells s row)

def handleQuickColUndo (s : Section) (col : ℕ) : GameState := g.quickUndo (g.colCells s col)

def sectionCells (s : Section) : List String :=
  (List.range 100).map fun i => cellKey s.type (g.base s + i)

def shuffle (random : ℕ → Random) (n : ℕ) (pool : Array ℕ) : Array ℕ :=
  (List.range n).foldl
    (fun pool i => pool.swapIfInBounds i (i + (random i).floorTimes (pool.size - i))) pool

def pickedIndices (random : ℕ → Random) (n : ℕ) : List ℕ :=
  (shuffle random n (Array.range 100)).toList.take n

def refundedStake (s : Section) : ℤ := ((g.sectionCells s).map (amount g.bets)).sum

def handleRandomPick (s : Section) (count : ℤ) (random : ℕ → Random) : GameState :=
  if g.isLocked then g
  else
    let chip := g.selectedChip
    let n := (max 0 (min count 100)).toNat
    let netCost := chip * n - g.refundedStake s
    if g.pointsBalance < netCost then g.insufficient
    else
      let cleared := (g.sectionCells s).foldl (fun nextBets key => nextBets.erase key) g.bets
      let picked := (pickedIndices random n).map fun idx => cellKey s.type (g.base s + idx)
      g.stake netCost (picked.foldl (fun nextBets key => nextBets.insert key chip) cleared)

def handleDouble : GameState :=
  if g.isLocked ∨ !g.hasBets then g
  else
    let currentPlay := g.playStake
    if g.pointsBalance < currentPlay then g.say "Insufficient points to double."
    else
      { g with
        pointsBalance := g.pointsBalance - currentPlay
        playStake := g.playStake * 2
        bets := scale 2 g.bets }

def handleRepeat : GameState :=
  if g.isLocked ∨ !g.hasPreviousBets then g
  else
    let prevTotal := tallied g.previousBets
    if g.pointsBalance < prevTotal then g.say "Insufficient points to repeat."
    -- `{ ...prev.bets, ...prev.previousBets }`
    else g.stake prevTotal (g.previousBets ∪ g.bets)

def handleClear : GameState :=
  if g.isLocked ∨ !g.hasBets then g
  else { g with pointsBalance := g.pointsBalance + g.playStake, playStake := 0, bets := ∅ }

end GameState

end JitoGame.Web
