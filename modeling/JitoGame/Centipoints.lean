import JitoGame.Auth.Services
import JitoGame.Numerals
import Mathlib.Algebra.Group.Even

namespace JitoGame.Centipoints

open Auth (trim)

inductive ErrorName
  | rangeError
  | typeError
  | syntaxError
  deriving DecidableEq

structure Thrown where
  name : ErrorName
  message : String
  deriving DecidableEq

-- a finite double, its sign aside: `m × 2 ^ e`
structure Double where
  m : ℕ
  e : ℤ
  fits : m < 2 ^ 53
  range : -1074 ≤ e ∧ e ≤ 971
  normal : 2 ^ 52 ≤ m ∨ e = -1074

def Double.value (x : Double) : ℚ := x.m * 2 ^ x.e

/-- `x` is the double nearest to `d`, ties to even; `2 ^ 1024` is where `Infinity` begins. -/
def RoundsTo (d : ℚ) (x : Double) : Prop :=
  (∀ y : Double, |d - x.value| ≤ |d - y.value| ∧
    (|d - x.value| = |d - y.value| → y.value = x.value ∨ Even x.m)) ∧
  |d - x.value| < |d - 2 ^ 1024|

-- `k` of `Number::toString`
def digitCount (s : ℕ) : ℕ := (Nat.toDigits 10 s).length

def decimal (s : ℕ) (n : ℤ) : ℚ := s * 10 ^ (n - digitCount s)

/-- `s` and `n` of `Number::toString`: no decimal of fewer digits rounds to `x`. -/
structure Shortest (x : Double) (s : ℕ) (n : ℤ) : Prop where
  pos : 0 < s
  rounds : RoundsTo (decimal s n) x
  least : ∀ s' n', 0 < s' → RoundsTo (decimal s' n') x → digitCount s ≤ digitCount s'

-- where the shortest digits leave a choice, `s` and `n` are the engine's
structure Finite extends Double where
  s : ℕ
  n : ℤ
  shortest : m ≠ 0 → Shortest toDouble s n
  zero : m = 0 → s = 0

inductive Number
  | nan
  | infinity (negative : Bool)
  | finite (negative : Bool) (x : Finite)

inductive Value
  | bigint (value : ℤ)
  | number (value : Number)
  | string (value : String)

namespace Finite

variable (x : Finite)

def shortestDecimal : ℚ := decimal x.s x.n

-- `Number::toString`, the sign aside
def text : List Char :=
  let digits := Nat.toDigits 10 x.s
  let k := digits.length
  if x.m = 0 then ['0']
  else if -5 ≤ x.n ∧ x.n ≤ 21 then
    if k ≤ x.n then digits ++ List.replicate (x.n - k).toNat '0'
    else if 0 < x.n then digits.take x.n.toNat ++ '.' :: digits.drop x.n.toNat
    else '0' :: '.' :: (List.replicate (-x.n).toNat '0' ++ digits)
  else
    let sign := if x.n - 1 < 0 then '-' else '+'
    let exponent := Nat.toDigits 10 (x.n - 1).natAbs
    digits.take 1 ++ (if k = 1 then [] else '.' :: digits.drop 1) ++ 'e' :: sign :: exponent

-- for `0 < fractionDigits` and a number that is not negative
def toFixed (fractionDigits : ℕ) : List Char :=
  if 10 ^ 21 ≤ x.value then x.text
  else
    -- the nearest, and the larger of two nearest
    let n := ⌊x.value * 10 ^ fractionDigits + 1 / 2⌋.toNat
    let m := (Nat.toDigits 10 n).leftpad (fractionDigits + 1) '0'
    m.take (m.length - fractionDigits) ++ '.' :: m.drop (m.length - fractionDigits)

end Finite

def Number.text : Number → String
  | .nan => "NaN"
  | .infinity negative => if negative then "-Infinity" else "Infinity"
  | .finite negative x => (if negative ∧ x.m ≠ 0 then "-" else "") ++ String.ofList x.text

-- `BigInt(text)`, for texts without sign, blanks and radix prefix
def bigInt (text : List Char) : Except Thrown ℤ :=
  if text.all Char.isDigit then .ok (Decimals.value text)
  else .error ⟨.syntaxError, "Cannot convert " ++ String.ofList text ++ " to a BigInt"⟩

-- `/^(\d+)(\.\d+)?$/`
def decimalPattern (str : List Char) : Bool :=
  let rest := str.dropWhile Char.isDigit
  str.takeWhile Char.isDigit ≠ [] ∧
    (rest = [] ∨ rest.head? = some '.' ∧ rest.tail ≠ [] ∧ rest.tail.all Char.isDigit)

-- `replace(/^0+/, '') || '0'`
def stripZeros (intPart : List Char) : List Char :=
  let stripped := intPart.dropWhile (· = '0')
  if stripped = [] then ['0'] else stripped

def parts (str : List Char) : List Char × List Char :=
  match str.idxOf? '.' with
  | none => (str, ['0', '0'])
  | some dotIndex => (str.take dotIndex, ((str.drop (dotIndex + 1)).take 2).rightpad 2 '0')

def parseDecimalString (str : List Char) : Except Thrown ℤ := do
  let (intPart, fracPart) := parts str
  let intVal ← if intPart = [] then .ok 0 else bigInt (stripZeros intPart)
  let fracVal ← bigInt fracPart
  return intVal * 100 + fracVal

def toCentipoints : Value → Except Thrown ℤ
  | .bigint value =>
    if value < 0 then
      .error ⟨.rangeError, "toCentipoints: centipoints must be >= 0, got " ++ toString value⟩
    else .ok value
  | .number (.finite negative x) =>
    if negative ∧ x.m ≠ 0 then
      .error ⟨.rangeError, "toCentipoints: value must be >= 0, got " ++ (Number.finite negative x).text⟩
    else parseDecimalString (x.toFixed 10)
  | .number value => .error ⟨.typeError, "toCentipoints: non-finite value \"" ++ value.text ++ "\""⟩
  | .string value =>
    let str := (trim value).toList
    if decimalPattern str then parseDecimalString str
    else .error ⟨.typeError, "toCentipoints: invalid decimal string \"" ++ value ++ "\""⟩

def centipointsPerPoint : ℤ := 100

def fromCentipoints (minor : ℤ) : Except Thrown String :=
  if minor < 0 then
    .error ⟨.rangeError, "fromCentipoints: centipoints must be >= 0, got " ++ toString minor⟩
  else
    let integerPoints := minor.tdiv centipointsPerPoint
    let remainingCentipoints := minor.tmod centipointsPerPoint
    .ok (toString integerPoints ++ "." ++
      String.ofList ((toString remainingCentipoints).toList.leftpad 2 '0'))

end JitoGame.Centipoints
