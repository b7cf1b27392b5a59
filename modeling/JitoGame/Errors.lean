import JitoGame.Uuid

namespace JitoGame

inductive BetCategory
  | singles
  | doubles
  | triples
  deriving DecidableEq

def BetCategory.text : BetCategory → String
  | .singles => "singles"
  | .doubles => "doubles"
  | .triples => "triples"

def maxIdempotencyKeyLength : ℕ := 120

inductive Err
  -- the connection, a lock wait or the commit failed
  | fault
  -- Prisma's P2002
  | uniqueViolation
  -- any other error raised by the database: a length, range, cast or CHECK violation
  | databaseError
  | idempotencyKeyRequired
  | idempotencyKeyTooLong
  | betIdempotencyKeyReused
  | adjustmentIdempotencyKeyReused
  | ledgerIdempotencyKeyReused
  | roundMismatch
  | roundNotAccepting
  | deadlinePassed
  | invalidSelection (category : BetCategory) (selection : ℤ)
  | unsafeAmount (context : String)
  | insufficientPoints (requiredMinor availableMinor : ℤ)
  | notFound
  | noPointsAccount (userId : Uuid)
  | amountNotPositive
  deriving DecidableEq

def Err.status : Err → Option ℕ
  | .idempotencyKeyRequired | .idempotencyKeyTooLong | .invalidSelection .. | .unsafeAmount _ =>
    some 400
  | .notFound => some 404
  | .betIdempotencyKeyReused | .adjustmentIdempotencyKeyReused | .ledgerIdempotencyKeyReused
  | .roundMismatch => some 409
  | .roundNotAccepting | .deadlinePassed | .insufficientPoints .. => some 422
  | .fault | .uniqueViolation | .databaseError | .noPointsAccount _ | .amountNotPositive => none

def Err.code : Err → String
  | .idempotencyKeyRequired => "IDEMPOTENCY_KEY_REQUIRED"
  | .idempotencyKeyTooLong | .unsafeAmount _ => "VALIDATION_ERROR"
  | .betIdempotencyKeyReused | .adjustmentIdempotencyKeyReused | .ledgerIdempotencyKeyReused =>
    "IDEMPOTENCY_KEY_REUSED"
  | .roundMismatch => "ROUND_MISMATCH"
  | .roundNotAccepting => "ROUND_NOT_ACCEPTING"
  | .deadlinePassed => "DEADLINE_PASSED"
  | .invalidSelection .. => "INVALID_SELECTION"
  | .insufficientPoints .. => "INSUFFICIENT_POINTS"
  | .notFound => "NOT_FOUND"
  | .fault | .uniqueViolation | .databaseError | .noPointsAccount _ | .amountNotPositive =>
    "INTERNAL_ERROR"

def Err.message : Err → String
  | .idempotencyKeyRequired => "Idempotency-Key header is required."
  | .idempotencyKeyTooLong =>
    "Idempotency-Key header must not exceed " ++ toString maxIdempotencyKeyLength ++ " characters."
  | .betIdempotencyKeyReused => "This idempotency key was already used for a different bet."
  | .adjustmentIdempotencyKeyReused =>
    "This idempotency key was already used with a different adjustment."
  | .ledgerIdempotencyKeyReused =>
    "This idempotency key was already used with different parameters."
  | .roundMismatch => "The round does not belong to the requested game."
  | .roundNotAccepting => "This round is not currently accepting bets."
  | .deadlinePassed => "The betting deadline for this round has passed."
  | .invalidSelection category selection =>
    "Selection " ++ toString selection ++ " is out of range for category '" ++ category.text ++ "'."
  | .unsafeAmount context =>
    "The amount for " ++ context ++ " cannot be represented exactly as a safe integer."
  | .insufficientPoints .. => "Insufficient points balance for this operation."
  | .notFound => "NOT_FOUND"
  | .noPointsAccount userId => "PointsLedgerService: no points_accounts row for user " ++ userId.text
  | .amountNotPositive => "PointsLedgerService: amountMinor must be > 0"
  | .fault | .uniqueViolation | .databaseError => ""

end JitoGame
