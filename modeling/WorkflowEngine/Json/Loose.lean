import WorkflowEngine.Json.Basic
import WorkflowEngine.Fields

/-!
# Loose reading

Reading settings that are objects in JSON, where a part that is absent or of another kind counts as not
given. Of a repeated name the last entry counts.
-/
namespace WorkflowEngine

namespace Json

def asText? : Json → Option String
  | .string s => some s
  | _ => none

def asNat? : Json → Option Nat
  | .number (.integer i) => if 0 ≤ i then some i.toNat else none
  | _ => none

def asInt? : Json → Option Int
  | .number (.integer i) => some i
  | _ => none

/-- The items of an array, none of any other tree. -/
def items : Json → List Json
  | .array items => items
  | _ => []

/-- The part under a name, `null` if there is none. -/
def part (json : Json) (name : String) : Json := (json.field? name).getD .null

def textAt? (json : Json) (name : String) : Option String := (json.field? name).bind asText?

def textAt (json : Json) (name : String) (absent : String := "") : String :=
  (json.textAt? name).getD absent

def natAt? (json : Json) (name : String) : Option Nat := (json.field? name).bind asNat?

def natAt (json : Json) (name : String) (absent : Nat := 0) : Nat := (json.natAt? name).getD absent

def intAt (json : Json) (name : String) : Int := ((json.field? name).bind asInt?).getD 0

def flagAt (json : Json) (name : String) : Bool :=
  match json.field? name with
  | some (.bool b) => b
  | _ => false

def itemsAt (json : Json) (name : String) : List Json := (json.part name).items

def textsAt (json : Json) (name : String) : List String := (json.itemsAt name).filterMap asText?

/-- The texts under a name, if there is an array. -/
def textsAt? (json : Json) (name : String) : Option (List String) :=
  match json.field? name with
  | some (.array items) => some (items.filterMap asText?)
  | _ => none

def natsAt (json : Json) (name : String) : List Nat := (json.itemsAt name).filterMap asNat?

/-- Pairs of two readable items. -/
def pairsAt {α β : Type} (json : Json) (name : String) (first : Json → Option α)
    (second : Json → Option β) : List (α × β) :=
  (json.itemsAt name).filterMap fun pair =>
    match pair.items with
    | [a, b] => do some (← first a, ← second b)
    | _ => none

mutual

/-- The tree with the names of every object sorted, the last of a repeated name winning. -/
def sorted : Json → Json
  | .array items => .array (sortedItems items)
  | .object entries => .object (Fields.ofEntries (sortedEntries entries))
  | json => json

def sortedItems : List Json → List Json
  | [] => []
  | item :: items => sorted item :: sortedItems items

def sortedEntries : List (String × Json) → List (String × Json)
  | [] => []
  | (name, item) :: entries => (name, sorted item) :: sortedEntries entries

end

/-- An object with more entries. -/
def extend (json : Json) (more : List (String × Json)) : Json := .object (json.entries ++ more)

end Json

end WorkflowEngine
