import JitoGame.Json.Values
import JitoGame.NumberText

namespace JitoGame

open Json (Units Value Step units)
open Centipoints (Thrown)

/-- Plain data: what the services give to a serializer. Functions, symbols, boxed values, cycles and
objects with a `toJSON` (a `Date`) are not among it. -/
inductive Unknown
  | undefined
  | null
  | bool (b : Bool)
  | number (x : Centipoints.Number)
  | bigint (n : ℤ)
  | string (s : Units)
  | array (l : List Unknown)
  | object (m : List (Units × Unknown))

def bigIntReplacer (_key : Units) (value : Unknown) : Unknown :=
  match value with
  | .bigint n => .string (units (toString n))
  | value => value

namespace Unknown

mutual

-- `JSON.stringify` calls the replacer on every value before it serializes it; this is for a replacer that
-- leaves arrays and objects as they are
def replaceAll (replacer : Units → Unknown → Unknown) (key : Units) : Unknown → Unknown
  | .array l => .array (replaceElems replacer 0 l)
  | .object m => .object (replaceMembers replacer m)
  | v => replacer key v

def replaceElems (replacer : Units → Unknown → Unknown) (i : ℕ) : List Unknown → List Unknown
  | [] => []
  | v :: l => replaceAll replacer (units (toString i)) v :: replaceElems replacer (i + 1) l

def replaceMembers (replacer : Units → Unknown → Unknown) :
    List (Units × Unknown) → List (Units × Unknown)
  | [] => []
  | (k, v) :: m => (k, replaceAll replacer k v) :: replaceMembers replacer m

end

mutual

def serialize : Unknown → Except Thrown (Option Value)
  | .undefined => pure none
  | .null => pure (some .null)
  | .bool b => pure (some (.bool b))
  | .number (.finite negative x) => pure (some (.num (.ofFinite negative x)))
  | .number _ => pure (some .null)
  | .bigint _ => throw ⟨.typeError, "Do not know how to serialize a BigInt"⟩
  | .string s => pure (some (.str s))
  | .array l => do
    let l ← serializeElems l
    return some (.arr l)
  | .object m => do
    let m ← serializeMembers m
    return some (.obj m)

def serializeElems : List Unknown → Except Thrown (List Value)
  | [] => pure []
  | v :: l => do
    let o ← serialize v
    let l ← serializeElems l
    return o.getD .null :: l

def serializeMembers : List (Units × Unknown) → Except Thrown (List (Units × Value))
  | [] => pure []
  | (k, v) :: m => do
    let o ← serialize v
    let m ← serializeMembers m
    return match o with
      | some v => (k, v) :: m
      | none => m

end

def get (v : Unknown) (s : Step) : Unknown :=
  match s, v with
  | .key k, .object m => (m.lookup k).getD .undefined
  | .index i, .array l => l[i]?.getD .undefined
  | _, _ => .undefined

def follow (v : Unknown) : List Step → Unknown
  | [] => v
  | s :: path => (v.get s).follow path

end Unknown

def indentation (indent : Option ℤ) : List Char := List.replicate (min 10 (indent.getD 0)).toNat ' '

-- `none` for `undefined`
def stringify (value : Unknown) (replacer : Option (Units → Unknown → Unknown)) (indent : Option ℤ) :
    Except Thrown (Option (List Char)) := do
  let value := match replacer with
    | some replacer => value.replaceAll replacer []
    | none => value
  let o ← value.serialize
  return o.map (Json.print (indentation indent) [])

def safeJsonStringify (value : Unknown) (indent : Option ℤ) : Except Thrown (Option (List Char)) :=
  stringify value (some bigIntReplacer) indent

def publishRoundEvent (gameId event : Units) (payload : Unknown) :
    Except Thrown (Units × Option (List Char)) := do
  let message ← safeJsonStringify (.object [(units "event", .string event), (units "payload", payload)]) none
  return (units "game:events:" ++ gameId, message)

end JitoGame
