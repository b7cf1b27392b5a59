import JitoGame.Serializer

namespace JitoGame.Http

open Json (Units Value Step units)
open Centipoints (Finite Double Shortest decimal)

structure HttpException where
  status : Finite
  -- what `getResponse` gives
  response : Unknown
  message : Units

inductive Exception
  | http (e : HttpException)
  -- the message of an `Error`, `String(exception)` of anything else
  | other (errMessage : Units)

structure Request where
  -- set by the interceptor
  requestId : Option Units
  -- the header
  xRequestId : Option Units

structure Response where
  status : Finite
  -- the headers that the services set
  xRequestId : Option Units
  retryAfter : Option Units
  body : Unknown

theorem decimal_hundreds {d : ℕ} (hd : d < 10) : decimal d 3 = d * 100 := by
  rw [Centipoints.decimal_digit hd]
  norm_num

-- the double `100 * d`
def hundredsDouble (d : ℕ) (hd : 3 ≤ d ∧ d ≤ 5) : Double where
  m := d * 100 * 2 ^ 44
  e := -44
  fits := by omega
  range := by omega
  normal := .inl (by omega)

theorem hundreds_exact {d : ℕ} (hd : 3 ≤ d ∧ d ≤ 5) : Shortest (hundredsDouble d hd) d 3 := by
  have hdecimal := decimal_hundreds (show d < 10 by omega)
  refine .exact (by omega) ?_ ?_ ?_
  · rw [Centipoints.digitCount, Nat.toDigits_of_lt_base (by omega)]
    rfl
  · rw [hdecimal]
    norm_num [hundredsDouble, Double.value]
    ring
  · rw [hdecimal]
    refine ne_of_lt ?_
    calc (d : ℚ) * 100 ≤ 5 * 100 := by exact_mod_cast (by omega : d * 100 ≤ 5 * 100)
      _ < 2 ^ 9 := by norm_num
      _ ≤ 2 ^ 1024 := pow_le_pow_right₀ (by norm_num) (by norm_num)

def hundreds (d : ℕ) (hd : 3 ≤ d ∧ d ≤ 5) : Finite where
  toDouble := hundredsDouble d hd
  s := d
  n := 3
  shortest _ := hundreds_exact hd
  zero h := by
    have hpos : 0 < d * 100 * 2 ^ 44 := by omega
    exact absurd h hpos.ne'

def internalServerError : Finite := hundreds 5 (by decide)

def httpStatusCodes : List (String × String) :=
  [("400", "BAD_REQUEST"), ("401", "UNAUTHORIZED"), ("403", "FORBIDDEN"), ("404", "NOT_FOUND"),
    ("409", "CONFLICT"), ("422", "UNPROCESSABLE_ENTITY"), ("429", "RATE_LIMIT_EXCEEDED"),
    ("500", "INTERNAL_ERROR")]

def httpStatusToCode (status : Finite) : Units :=
  units ((httpStatusCodes.lookup (String.ofList status.text)).getD "HTTP_ERROR")

-- `v ?? d`
def orDefault (v d : Unknown) : Unknown :=
  match v with
  | .undefined | .null => d
  | v => v

def field (v : Unknown) (name : String) : Unknown := v.get (.key (units name))

def isObject : Unknown → Bool
  | .object _ | .array _ => true
  | _ => false

def extractValidationErrors (response : Unknown) : Option (List Unknown) :=
  match field response "message" with
  | .array msgs => some (msgs.map fun m => .object [(units "message", m)])
  | _ => none

-- `String(Math.ceil(x))`
def ceilText (negative : Bool) (x : Finite) : Units :=
  let value := if negative then -x.value else x.value
  if value.isInt then units (Centipoints.Number.finite negative x).text else units (toString ⌈value⌉)

structure Described where
  statusCode : Finite
  code : Unknown
  message : Unknown
  errors : Option (List Unknown)

def asText : Unknown → Option Units
  | .string s => some s
  | _ => none

def HttpException.describe (e : HttpException) : Described :=
  if isObject e.response then
    { statusCode := e.status
      code := orDefault (field e.response "code") (.string (httpStatusToCode e.status))
      message := orDefault (field e.response "message") (.string e.message)
      errors := extractValidationErrors e.response }
  else
    { statusCode := e.status
      code := .string (httpStatusToCode e.status)
      message := .string ((asText e.response).getD e.message)
      errors := none }

def describe (isProduction : Bool) : Exception → Described
  | .http e => e.describe
  | .other errMessage =>
    { statusCode := internalServerError
      code := .string (units "INTERNAL_ERROR")
      message := .string (if isProduction then units "An unexpected error occurred" else errMessage)
      errors := none }

def ErrorEnvelope (d : Described) (requestId : Units) : Unknown :=
  .object ([(units "success", .bool false), (units "statusCode", .number (.finite false d.statusCode)),
    (units "code", d.code), (units "message", d.message)] ++
    (match d.errors with
    | some (m :: msgs) => [(units "errors", .array (m :: msgs))]
    | _ => []) ++ [(units "requestId", .string requestId)])

def retryAfter (statusCode : Finite) : Exception → Option Units
  | .http e =>
    if statusCode.value = 429 ∧ isObject e.response then
      match field e.response "retryAfter" with
      | .number (.finite negative x) => some (ceilText negative x)
      | _ => none
    else none
  | .other _ => none

def GlobalExceptionFilter.catch (isProduction : Bool) (exception : Exception) (request : Request) : Response :=
  let requestId := (request.requestId.or request.xRequestId).getD (units "unknown")
  let d := describe isProduction exception
  { status := d.statusCode
    xRequestId := none
    retryAfter := retryAfter d.statusCode exception
    body := ErrorEnvelope d requestId }

def RequestIdInterceptor.intercept (uuid : Units) (request : Request) : Request × Units :=
  let requestId := request.xRequestId.getD (units "req_" ++ uuid)
  ({ request with requestId := some requestId }, requestId)

inductive Stage
  -- routing and the guards
  | beforeInterceptors
  -- pipes, handler and services
  | afterInterceptors
  deriving DecidableEq

def fail (isProduction : Bool) (uuid : Units) (xRequestId : Option Units) (stage : Stage)
    (exception : Exception) : Response :=
  match stage with
  | .beforeInterceptors => GlobalExceptionFilter.catch isProduction exception ⟨none, xRequestId⟩
  | .afterInterceptors =>
    let (request, requestId) := RequestIdInterceptor.intercept uuid ⟨none, xRequestId⟩
    { GlobalExceptionFilter.catch isProduction exception request with xRequestId := some requestId }

end JitoGame.Http
