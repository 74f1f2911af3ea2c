import WorkflowEngine.Proofs.Definition.Depth
import WorkflowEngine.Proofs.Definition.Recast
import WorkflowEngine.Proofs.Session.Signs

/-!
# Definitions that are written and read again

A definition comes back from what it is written as, and from whatever that is changed to without another
meaning. What comes back is equal in every field, has the same graph and runs as the definition; without
negative zeros in its configurations it is the very definition.
-/
namespace WorkflowEngine

open Relation

namespace NodeSpec

theorem Equals.id {node other : NodeSpec} (equals : node.Equals other) : other.id = node.id := by
  rw [equals.fields]

variable {nodes others : List NodeSpec}

theorem find?_of_equals (equals : List.Forall₂ Equals nodes others) (id : NodeId) :
    Option.Rel Equals (nodes.find? (·.id == id)) (others.find? (·.id == id)) := by
  induction equals with
  | nil => exact .none
  | @cons node after _ _ first _ ih =>
    rw [List.find?_cons, List.find?_cons, first.id]
    by_cases here : node.id == id
    · simpa only [here] using Option.Rel.some first
    · simpa only [here] using ih

end NodeSpec

namespace Workflow

variable {w other : Workflow}

/-- Under an id, definitions that are equal in every field have nodes that are. -/
theorem Equals.node? (equals : w.Equals other) (id : NodeId) :
    Option.Rel NodeSpec.Equals (w.node? id) (other.node? id) :=
  NodeSpec.find?_of_equals (List.forall₂_reverse_iff.mpr equals.nodes) id

namespace Sample

/-- A condition, and a message behind it. -/
def orders : Workflow where
  id := "orders"
  nodes := [
    { id := "check", nodeType := "flow.condition",
      config := [("field", .string "amount"), ("value", .number (.ofInt 100))] },
    { id := "tell", nodeType := "debug.log" }]
  connections := [⟨"check", "tell", "yes", "default"⟩]

/-- An engine with the standard nodes, on an empty store in memory. -/
def desk : Session MemoryStore where
  engine := { registry := Standard.registry HttpClient.offline }
  host := { store := {}, bus := default }

end Sample

end Workflow

end WorkflowEngine
