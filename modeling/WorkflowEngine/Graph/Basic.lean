import WorkflowEngine.Definition.Workflow

/-!
# The graph of a definition

Nodes and their outgoing edges as the scheduler sees them. The definition need not be valid: of nodes
with one id the last counts, and an edge may lead to no node. Trigger nodes mark where a run enters;
they are replaced by what their edges lead to, in depth-first order.
-/
namespace WorkflowEngine

namespace Workflow

/-- The node with an id; the last one, should there be several. -/
def node? (w : Workflow) (id : NodeId) : Option NodeSpec := w.nodes.reverse.find? (·.id == id)

/-- Outgoing connections, in the order of the definition. -/
def edges (w : Workflow) (id : NodeId) : List Connection :=
  w.connections.filter (·.fromNodeId == id)

/-- Do the outgoing edges leave through named outputs? Either one is not the default port, or there
are several. -/
def isBranch (w : Workflow) (id : NodeId) : Bool :=
  match (w.edges id).map (·.fromOutput) with
  | [] => false
  | first :: rest => first ≠ defaultPort || rest.any (· ≠ first)

/-- Targets of the outgoing edges, of one output if one is given. -/
def successors (w : Workflow) (id : NodeId) (output : Option String) : List NodeId :=
  ((w.edges id).filter fun c => output.all (c.fromOutput == ·)).map (·.toNodeId)

def hasIncoming (w : Workflow) (id : NodeId) : Bool := w.connections.any (·.toNodeId == id)

/-- Is there a node with this id whose type marks an entry point? -/
def isTriggerId (w : Workflow) (isTrigger : String → Bool) (id : NodeId) : Bool :=
  (w.node? id).any fun node => isTrigger node.nodeType

/-- Replace triggers by their successors, depth first: `todo` is still to be looked at, `expanded`
are the triggers replaced so far, and `entries` the entries found so far, in order. -/
def expandEntries (w : Workflow) (isTrigger : String → Bool) :
    (fuel : Nat) → (todo expanded entries : List NodeId) → List NodeId
  | 0, _, _, entries => entries
  | _ + 1, [], _, entries => entries
  | fuel + 1, id :: todo, expanded, entries =>
    if w.isTriggerId isTrigger id then
      if id ∈ expanded then expandEntries w isTrigger fuel todo expanded entries
      else
        expandEntries w isTrigger fuel (w.successors id none ++ todo) (id :: expanded) entries
    else if id ∈ entries then expandEntries w isTrigger fuel todo expanded entries
    else expandEntries w isTrigger fuel todo expanded (entries ++ [id])

/-- Where an expansion starts: nodes without incoming edges, and triggers. -/
def entryRoots (w : Workflow) (isTrigger : String → Bool) : List NodeId :=
  (w.nodes.filter fun node => !w.hasIncoming node.id || isTrigger node.nodeType).map (·.id)

/-- Every step looks at a root or at an edge of a trigger, and each trigger is replaced once, so this
many steps reach the end. -/
def expansionFuel (w : Workflow) : Nat := w.nodes.length + w.connections.length + 1

/-- The first nodes of a fresh run, without repetition. -/
def entryNodes (w : Workflow) (isTrigger : String → Bool) : List NodeId :=
  w.expandEntries isTrigger w.expansionFuel (w.entryRoots isTrigger) [] []

/-- The number of nodes that are no triggers: the most steps a run can take. -/
def executableCount (w : Workflow) (isTrigger : String → Bool) : Nat :=
  (w.nodes.filter fun node => !isTrigger node.nodeType).length

end Workflow

end WorkflowEngine
