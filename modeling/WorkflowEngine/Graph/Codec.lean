import WorkflowEngine.Graph.Basic
import WorkflowEngine.Json.Basic

/-!
# Graphs as JSON

What leaves a node, on all outputs or on one.
-/
namespace WorkflowEngine

namespace Workflow

def edgeEntries (w : Workflow) (id : NodeId) (output : Option String) : List (String × Json) := [
  ("edges", .array ((w.edges id).map fun c => .strings [c.toNodeId, c.fromOutput, c.toInput])),
  ("branch", .bool (w.isBranch id)),
  ("successors", .strings (w.successors id output))]

end Workflow

end WorkflowEngine
