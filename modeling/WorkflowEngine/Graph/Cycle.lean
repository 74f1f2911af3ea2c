import WorkflowEngine.Graph.Basic

/-!
# Cycles of a definition

Two nodes lie on a common cycle when each reaches the other along connections. The groups of such
nodes are listed in order, each sorted by id; connections with an end that is no node do not count.
-/
namespace WorkflowEngine

namespace Workflow

/-- The ids in order of first appearance. -/
def nodeIds (w : Workflow) : List NodeId := w.nodes.map (·.id)

/-- Targets of connections from a node, both ends being nodes. -/
def arrows (w : Workflow) (id : NodeId) : List NodeId :=
  ((w.connections.filter fun c =>
    c.fromNodeId == id && w.nodeIds.contains c.fromNodeId && w.nodeIds.contains c.toNodeId)).map
      (·.toNodeId)

/-- Everything reached from `todo`, added to `found`. -/
def reach (w : Workflow) : (fuel : Nat) → (todo found : List NodeId) → List NodeId
  | 0, _, found => found
  | _ + 1, [], found => found
  | fuel + 1, id :: todo, found =>
    if id ∈ found then reach w fuel todo found
    else reach w fuel (w.arrows id ++ todo) (id :: found)

/-- What a non-empty path from a node leads to. Every step of the search looks at the end of a
connection, and each node's connections are followed once. -/
def reachable (w : Workflow) (id : NodeId) : List NodeId :=
  w.reach (2 * w.connections.length + 1) (w.arrows id) []

def insertSorted (id : NodeId) : List NodeId → List NodeId
  | [] => [id]
  | x :: rest =>
    if id = x then x :: rest
    else if id < x then id :: x :: rest
    else x :: insertSorted id rest

/-- The ids in increasing order, without repetition. -/
def sortedIds (ids : List NodeId) : List NodeId := ids.foldr insertSorted []

/-- What each node reaches. -/
def reachTable (w : Workflow) : List (NodeId × List NodeId) :=
  (sortedIds w.nodeIds).map fun id => (id, w.reachable id)

/-- Does a table of reached nodes lead from one node to another? -/
def leadsTo (table : List (NodeId × List NodeId)) (source target : NodeId) : Bool :=
  match table.lookup source with
  | some reached => reached.contains target
  | none => false

/-- Groups of nodes that sit on a cycle. Each is listed at its least member; groups share no node, so
this is the order of the groups. -/
def cycles (w : Workflow) : List (List NodeId) :=
  let table := w.reachTable
  table.filterMap fun (id, reached) =>
    match sortedIds (reached.filter fun other => leadsTo table other id) with
    | [] => none
    | first :: rest => if first = id then some (first :: rest) else none

/-- Refuse a definition with a cycle, naming the nodes of the first. -/
def ensureAcyclic (w : Workflow) : Except WorkflowError Unit :=
  match w.cycles with
  | [] => .ok ()
  | nodes :: _ => .error (.cyclicDependency nodes)

end Workflow

end WorkflowEngine
