import JitoGame.Schema

namespace JitoGame

open Transactions

namespace RoundsService

variable {C R : Type}

def gameDisplayPrefix : GameId → String
  | .tripleChanceTimer => "TC"
  | .tripleChanceProTimer => "TCP"

def generateDisplayCode (gameId : GameId) (roundNumber : ℤ) : String :=
  gameDisplayPrefix gameId ++ toString roundNumber

def later (best : Option GameRound) (r : GameRound) : Option GameRound :=
  match best with
  | none => some r
  | some b => if b.roundNumber < r.roundNumber then some r else some b

def liveRound (d : Db) (gameId : GameId) : Option GameRound :=
  (d.rounds.filter fun r => r.gameId = gameId ∧ !r.state.terminal).foldl later none

def findLiveRound (gameId : GameId) : Prog (schema C R) (Option GameRound) := do
  let v ← Prog.select .findLiveRound
  pure (liveRound v.db gameId)

def maxRoundNumber (d : Db) (gameId : GameId) : Option ℤ :=
  ((d.rounds.filter fun r => r.gameId = gameId).foldl later none).map (·.roundNumber)

def nextRoundNumber (gameId : GameId) : Prog (schema C R) ℤ := do
  let v ← Prog.select .maxRoundNumber
  pure ((maxRoundNumber v.db gameId).getD 0 + 1)

def roundRow (id : Uuid) (gameId : GameId) (roundNumber : ℤ) (opensAt windowMs : ℕ) : GameRound :=
  ⟨id, gameId, roundNumber, generateDisplayCode gameId roundNumber, .created, 0, opensAt,
    opensAt + windowMs, none⟩

def codeTaken (row : GameRound) (d : Db) : Bool :=
  d.rounds.any fun r => r.displayCode = row.displayCode

def numberTaken (row : GameRound) (d : Db) : Bool :=
  d.rounds.any fun r => r.gameId = row.gameId ∧ r.roundNumber = row.roundNumber

def liveTaken (row : GameRound) (d : Db) : Bool :=
  d.rounds.any fun r => r.gameId = row.gameId ∧ !r.state.terminal

def createRound (row : GameRound) : Prog (schema C R) Unit := do
  require (row.fits = true) .databaseError
  insert .insertRound (.displayCode row.displayCode) (codeTaken row) []
  insert .insertRound (.roundNumber row.gameId row.roundNumber) (numberTaken row) []
  insert .insertRound (.liveRound row.gameId) (liveTaken row) [.insertRound row]

def tryCreateRound (windowMs : ℕ) (gameId : GameId) : Prog (schema C R) (Option GameRound) := do
  let roundNumber ← nextRoundNumber gameId
  -- `new Date()` on the engine's host
  let opensAt ← Prog.outside
  try
    let id ← Prog.fresh
    let row := roundRow id gameId roundNumber opensAt windowMs
    Prog.transaction (createRound row)
    pure (some row)
  catch err =>
    if err = Err.uniqueViolation then pure none else throw err

def hits (roundId : Uuid) (guard : ℕ → GameRound → Bool) (v : View Db) : Bool :=
  (v.db.roundOf roundId).any (guard v.now)

/-- A guarded `UPDATE` of one row, alone in its transaction; it returns whether the row was hit. -/
def update (tag : Tag) (roundId : Uuid) (guard : ℕ → GameRound → Bool) (w : ℕ → Write) :
    Prog (schema C R) Bool :=
  Prog.transaction do
    let v ← Prog.exec tag (fun v => if hits roundId guard v then some (.round roundId) else none)
      (fun v => if hits roundId guard v then [w v.now] else [])
    pure (hits roundId guard v)

def openRound (roundId : Uuid) : Prog (schema C R) Bool :=
  update .openRound roundId (fun _ r => r.openable) fun _ => .openRound roundId

def lockIfDeadlinePassed (roundId : Uuid) : Prog (schema C R) Bool :=
  update .lockIfDeadlinePassed roundId (fun now r => r.closable now) fun now => .lockRound roundId now

def reconcile (windowMs : ℕ) (gameId : GameId) : Prog (schema C R) Unit := do
  match ← findLiveRound gameId with
  | none => let _ ← tryCreateRound windowMs gameId
  | some round =>
    if round.state = .created then let _ ← openRound round.id
    else if round.state.lockable then let _ ← lockIfDeadlinePassed round.id
    else pure ()

end RoundsService

end JitoGame
