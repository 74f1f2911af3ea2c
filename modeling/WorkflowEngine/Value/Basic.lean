import WorkflowEngine.Fields
import WorkflowEngine.Number.Binary64

/-!
# Dynamic values

The values of a workflow context and of a node's configuration. Every number is a binary64 number, and
the keys of an object are sorted at every level of a value that came from JSON.
-/
namespace WorkflowEngine

inductive Value where
  | null
  | bool (b : Bool)
  | number (x : Binary64)
  | string (s : String)
  | array (items : List Value)
  | object (fields : List (String × Value))
  deriving Inhabited

/-- Live data of a run: the keys every node reads and writes. -/
abbrev Context := Fields Value

namespace Value

def ofInt (i : Int) : Value := .number (.ofInt i)

def asString? : Value → Option String
  | .string s => some s
  | _ => none

def asNumber? : Value → Option Binary64
  | .number x => some x
  | _ => none

def asBool? : Value → Option Bool
  | .bool b => some b
  | _ => none

def asObject? : Value → Option (Fields Value)
  | .object fields => some fields
  | _ => none

def isNull : Value → Bool
  | .null => true
  | _ => false

/-- What counts as true in a condition: no null, no zero, no NaN, no empty text; every array and
object. -/
def isTruthy : Value → Bool
  | .null => false
  | .bool b => b
  | .number x => x.truthy
  | .string s => s ≠ ""
  | .array _ => true
  | .object _ => true

mutual

/-- Equality of values: numbers compare as numbers, so both zeros are equal and a NaN is not equal to
itself. -/
def equal : Value → Value → Bool
  | .null, .null => true
  | .bool a, .bool b => a == b
  | .number x, .number y => x.equal y
  | .string s, .string t => s == t
  | .array xs, .array ys => equalItems xs ys
  | .object xs, .object ys => equalFields xs ys
  | _, _ => false

def equalItems : List Value → List Value → Bool
  | [], [] => true
  | x :: xs, y :: ys => equal x y && equalItems xs ys
  | _, _ => false

def equalFields : List (String × Value) → List (String × Value) → Bool
  | [], [] => true
  | (k, x) :: xs, (l, y) :: ys => k == l && equal x y && equalFields xs ys
  | _, _ => false

end

/-- The name of a value's kind, as error messages give it. -/
def kindName : Value → String
  | .null => "null"
  | .bool _ => "bool"
  | .number _ => "number"
  | .string _ => "string"
  | .array _ => "array"
  | .object _ => "object"

end Value

end WorkflowEngine
