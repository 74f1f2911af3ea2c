/-!
# Key-sorted fields

A finite map from texts to values, held as an association list whose keys increase strictly. The
order makes the list canonical: two maps with the same lookups are the same list, and writing the
fields in list order is writing them sorted. The operations keep the order (`Fields.Sorted`); the
type does not carry the proof, so that values may nest fields of values.
-/
namespace WorkflowEngine

abbrev Fields (α : Type) := List (String × α)

namespace Fields

variable {α : Type}

/-- Keys increase strictly. -/
def Sorted (fields : Fields α) : Prop := (fields.map (·.1)).Pairwise (· < ·)

def get? (fields : Fields α) (key : String) : Option α :=
  match fields with
  | [] => none
  | (k, v) :: rest => if k = key then some v else get? rest key

def contains (fields : Fields α) (key : String) : Bool := (fields.get? key).isSome

def keys (fields : Fields α) : List String := fields.map (·.1)

/-- Set one key, at its place in the order. -/
def insert (key : String) (value : α) : Fields α → Fields α
  | [] => [(key, value)]
  | (k, v) :: rest =>
    if key = k then (key, value) :: rest
    else if key < k then (key, value) :: (k, v) :: rest
    else (k, v) :: insert key value rest

def erase (fields : Fields α) (key : String) : Fields α := fields.filter (·.1 ≠ key)

/-- The fields of a list of entries; of repeated keys the last wins. -/
def ofEntries (entries : List (String × α)) : Fields α :=
  entries.foldl (fun fields entry => fields.insert entry.1 entry.2) []

/-- Every key of `update` set on top of `fields`. -/
def merge (fields update : Fields α) : Fields α :=
  update.foldl (fun fields entry => fields.insert entry.1 entry.2) fields

end Fields

end WorkflowEngine
