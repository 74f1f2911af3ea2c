import WorkflowEngine.Json.Reader

/-!
# Typed reading

Reading a typed value from a JSON tree. A structure is an object with named parts, or an array of its
parts in order; unknown names are ignored, a known name given twice is an error, and only an optional
part accepts `null`. A unit of an enumeration is its name, or an object with that one name.
-/
namespace WorkflowEngine

/-- Why a JSON tree does not stand for a typed value. -/
inductive DecodeError where
  | text (cause : Json.ReadError)
  | wrongKind (expected : String)
  | missing (name : String)
  | repeated (name : String)
  | tooMany
  | outOfRange
  | unknownName (name : String)
  | malformed (what : String)
  deriving DecidableEq, Inhabited

def DecodeError.message : DecodeError → String
  | .text cause => cause.message
  | .wrongKind expected => "expected " ++ expected
  | .missing name => "missing field " ++ name
  | .repeated name => "duplicate field " ++ name
  | .tooMany => "too many elements"
  | .outOfRange => "number out of range"
  | .unknownName name => "unknown name " ++ name
  | .malformed what => "malformed " ++ what

namespace Json

/-- A reader of typed values. -/
abbrev Decode (α : Type) := Json → Except DecodeError α

namespace Decode

def string : Decode String
  | .string s => .ok s
  | _ => .error (.wrongKind "a string")

def bool : Decode Bool
  | .bool b => .ok b
  | _ => .error (.wrongKind "a boolean")

/-- An integer from 0 to below a bound. -/
def natBelow (bound : Nat) : Decode Nat
  | .number (.integer i) =>
    if 0 ≤ i ∧ i.toNat < bound then .ok i.toNat else .error .outOfRange
  | _ => .error (.wrongKind "an integer")

/-- Any number, as binary64. -/
def number : Decode Binary64
  | .number n => .ok n.toBinary64
  | _ => .error (.wrongKind "a number")

def listOf {α : Type} (item : Decode α) : Decode (List α)
  | .array items => items.mapM item
  | _ => .error (.wrongKind "an array")

/-- `null` is no value. -/
def nullable {α : Type} (item : Decode α) : Decode (Option α)
  | .null => .ok none
  | json => item json |>.map some

/-- The name of a unit of an enumeration: a string, or an object with the one name and `null`. A
tree that was held back before its type was known also admits an empty object for `null`. -/
def unitName (heldBack : Bool) : Decode String
  | .string name => .ok name
  | .object [(name, .null)] => .ok name
  | .object [(name, .object [])] =>
    if heldBack then .ok name else .error (.wrongKind "a unit")
  | _ => .error (.wrongKind "a name")

end Decode

/-- The parts of a written structure: named, or listed in the structure's order. -/
inductive Parts where
  | named (entries : List (String × Json))
  | listed (items : List Json)

namespace Parts

/-- The parts of a structure of `arity` parts. -/
def of (arity : Nat) : Decode Parts
  | .object entries => .ok (.named entries)
  | .array items => if items.length ≤ arity then .ok (.listed items) else .error .tooMany
  | _ => .error (.wrongKind "a structure")

/-- The parts of a structure that is written as an object only. -/
def ofObject : Decode Parts
  | .object entries => .ok (.named entries)
  | _ => .error (.wrongKind "an object")

/-- The part at a place, known under any of the names. -/
def find (parts : Parts) (place : Nat) (names : List String) : Except DecodeError (Option Json) :=
  match parts with
  | .listed items => .ok items[place]?
  | .named entries =>
    match entries.filter fun entry => names.contains entry.1 with
    | [] => .ok none
    | [(_, json)] => .ok (some json)
    | (name, _) :: _ => .error (.repeated name)

/-- A part that must be there. -/
def required {α : Type} (parts : Parts) (place : Nat) (name : String) (item : Decode α) :
    Except DecodeError α := do
  match ← parts.find place [name] with
  | some json => item json
  | none => throw (.missing name)

/-- A part that has a value of its own when it is left out. -/
def withDefault {α : Type} (parts : Parts) (place : Nat) (names : List String) (absent : α)
    (item : Decode α) : Except DecodeError α := do
  match ← parts.find place names with
  | some json => item json
  | none => return absent

/-- A part that may be `null` or left out. -/
def optional {α : Type} (parts : Parts) (place : Nat) (name : String) (item : Decode α) :
    Except DecodeError (Option α) :=
  parts.withDefault place [name] none (Decode.nullable item)

/-- A part that may be `null`, and left out only where parts are named. -/
def optionalNamed {α : Type} (parts : Parts) (place : Nat) (name : String) (item : Decode α) :
    Except DecodeError (Option α) := do
  match parts, ← parts.find place [name] with
  | _, some json => Decode.nullable item json
  | .named _, none => return none
  | .listed _, none => throw (.missing name)

end Parts

/-- Read a text as a typed value. -/
def decodeText {α : Type} (item : Decode α) (text : String) : Except DecodeError α :=
  match read text with
  | .error cause => .error (.text cause)
  | .ok json => item json

end Json

end WorkflowEngine
