import WorkflowEngine.Json.Printer
import WorkflowEngine.Json.Reader
import WorkflowEngine.Value.Basic

/-!
# Values as JSON

A value is written as plain JSON. A number without a fraction and of a magnitude below `2^63` is
written as an integer, every other finite number as a decimal, and what is not finite as `null`.
Reading rounds every number to binary64 and sorts the keys of objects, the last of a repeated key
winning.
-/
namespace WorkflowEngine

namespace Value

mutual

def ofJson : Json → Value
  | .null => .null
  | .bool b => .bool b
  | .number n => .number n.toBinary64
  | .string s => .string s
  | .array items => .array (ofJsonItems items)
  | .object entries => .object (Fields.ofEntries (ofJsonEntries entries))

def ofJsonItems : List Json → List Value
  | [] => []
  | item :: items => ofJson item :: ofJsonItems items

def ofJsonEntries : List (String × Json) → List (String × Value)
  | [] => []
  | (key, item) :: entries => (key, ofJson item) :: ofJsonEntries entries

end

/-- Whole numbers below this magnitude, `2 ^ 63`, are written as integers. -/
def wholeLimit : Nat := 0x8000000000000000

def numberToJson (x : Binary64) : Json :=
  match x.toInt? with
  | some i => if i.natAbs < wholeLimit then .int i else .number (.float x)
  | none => if x.isFinite then .number (.float x) else .null

mutual

def toJson : Value → Json
  | .null => .null
  | .bool b => .bool b
  | .number x => numberToJson x
  | .string s => .string s
  | .array items => .array (toJsonItems items)
  | .object fields => .object (toJsonFields fields)

def toJsonItems : List Value → List Json
  | [] => []
  | item :: items => toJson item :: toJsonItems items

def toJsonFields : List (String × Value) → List (String × Json)
  | [] => []
  | (key, item) :: fields => (key, toJson item) :: toJsonFields fields

end

/-- The text of a value in messages: a string as it is, all else as compact JSON. -/
def display : Value → String
  | .string s => s
  | value => value.toJson.compact

end Value

namespace Context

/-- A JSON object as a context; nothing else is one. -/
def ofJson? : Json → Option Context
  | .object entries => some (Fields.ofEntries (Value.ofJsonEntries entries))
  | _ => none

def toJson (context : Context) : Json := .object (Value.toJsonFields context)

end Context

end WorkflowEngine
