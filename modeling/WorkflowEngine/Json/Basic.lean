import WorkflowEngine.Number.Binary64

/-!
# JSON trees

The tree of a JSON text. Objects keep their entries in the order they were written, repeated names
included, because a typed reader treats a repeated name as an error while a free-form object lets the
last one win. Integers of at most 64 bits are kept apart from numbers with a fraction.
-/
namespace WorkflowEngine

/-- A number of a JSON text: an integer of at most 64 bits, or a binary64 number. -/
inductive Json.Number where
  | integer (i : Int)
  | float (x : Binary64)
  deriving DecidableEq, Inhabited

inductive Json where
  | null
  | bool (b : Bool)
  | number (n : Json.Number)
  | string (s : String)
  | array (items : List Json)
  | object (entries : List (String × Json))
  deriving Inhabited

namespace Json

def nat (n : Nat) : Json := .number (.integer n)

def int (i : Int) : Json := .number (.integer i)

/-- An absent part is written as `null`. -/
def optional {α : Type} (write : α → Json) : Option α → Json
  | none => .null
  | some a => write a

def strings (items : List String) : Json := .array (items.map .string)

/-- The entries of an object, none of any other tree. -/
def entries : Json → List (String × Json)
  | .object entries => entries
  | _ => []

/-- The last entry of an object under a name. -/
def field? (json : Json) (name : String) : Option Json :=
  (json.entries.reverse.find? (·.1 == name)).map (·.2)

/-- The binary64 number nearest to a JSON number. -/
def Number.toBinary64 : Number → Binary64
  | .integer i => .ofInt i
  | .float x => x

end Json

end WorkflowEngine
