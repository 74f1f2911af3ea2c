import Mathlib.Data.List.Basic
import WorkflowEngine.Graph.Cycle

/-!
# What the graph is read from

The graph of a definition is read from its connections and from the ids and types of its nodes. Where
these are the same, so are validation, edges, entries and cycles.
-/
namespace WorkflowEngine

namespace Workflow

/-- The nodes by id and type. -/
def outline (w : Workflow) : List (NodeId × String) := w.nodes.map fun node => (node.id, node.nodeType)

/-- Definitions with one graph. -/
structure Alike (w other : Workflow) : Prop where
  outline : other.outline = w.outline
  connections : other.connections = w.connections

variable {w other : Workflow}

theorem nodeIds_eq (w : Workflow) : w.nodeIds = w.outline.map (·.1) := by
  rw [outline, List.map_map]
  rfl

theorem isTriggerId_eq (w : Workflow) (isTrigger : String → Bool) (id : NodeId) :
    w.isTriggerId isTrigger id =
      (w.outline.reverse.find? fun node => node.1 == id).any fun node => isTrigger node.2 := by
  rw [outline, ← List.map_reverse, List.find?_map, Option.any_map]
  rfl

theorem entryRoots_eq (w : Workflow) (isTrigger : String → Bool) :
    w.entryRoots isTrigger =
      (w.outline.filter fun node => !w.hasIncoming node.1 || isTrigger node.2).map (·.1) := by
  rw [outline, List.filter_map, List.map_map]
  rfl

theorem executableCount_eq (w : Workflow) (isTrigger : String → Bool) :
    w.executableCount isTrigger = (w.outline.filter fun node => !isTrigger node.2).length := by
  rw [outline, List.filter_map, List.length_map]
  rfl

theorem checkNodes_eq (seen : List NodeId) (nodes others : List NodeSpec)
    (hsame : others.map (·.id) = nodes.map (·.id)) : checkNodes seen others = checkNodes seen nodes := by
  induction nodes generalizing others seen with
  | nil => rw [List.map_eq_nil_iff.mp hsame]
  | cons node nodes ih =>
      obtain ⟨after, others, rfl, hid, hrest⟩ := List.map_eq_cons_iff.mp hsame
      simp only [checkNodes, hid, ih _ others hrest]

namespace Alike

variable (h : w.Alike other)
include h

theorem nodeIds : other.nodeIds = w.nodeIds := by
  rw [nodeIds_eq, nodeIds_eq, h.outline]

theorem edges (id : NodeId) : other.edges id = w.edges id := by
  rw [Workflow.edges, Workflow.edges, h.connections]

theorem isBranch (id : NodeId) : other.isBranch id = w.isBranch id := by
  rw [Workflow.isBranch, Workflow.isBranch, h.edges]

theorem successors (id : NodeId) (output : Option String) :
    other.successors id output = w.successors id output := by
  rw [Workflow.successors, Workflow.successors, h.edges]

theorem hasIncoming (id : NodeId) : other.hasIncoming id = w.hasIncoming id := by
  rw [Workflow.hasIncoming, Workflow.hasIncoming, h.connections]

theorem isTriggerId (isTrigger : String → Bool) (id : NodeId) :
    other.isTriggerId isTrigger id = w.isTriggerId isTrigger id := by
  rw [isTriggerId_eq, isTriggerId_eq, h.outline]

theorem executableCount (isTrigger : String → Bool) :
    other.executableCount isTrigger = w.executableCount isTrigger := by
  rw [executableCount_eq, executableCount_eq, h.outline]

theorem validate : other.validate = w.validate := by
  have hids : other.nodes.map (·.id) = w.nodes.map (·.id) := h.nodeIds
  have hempty : other.nodes.isEmpty = w.nodes.isEmpty := by
    rw [← List.isEmpty_map, hids, List.isEmpty_map]
  simp only [Workflow.validate, hempty, checkNodes_eq [] w.nodes other.nodes hids, hids,
    h.connections]

theorem expandEntries (isTrigger : String → Bool) (fuel : Nat) (todo expanded entries : List NodeId) :
    other.expandEntries isTrigger fuel todo expanded entries =
      w.expandEntries isTrigger fuel todo expanded entries := by
  induction fuel generalizing todo expanded entries with
  | zero => rfl
  | succ fuel ih =>
      cases todo with
      | nil => rfl
      | cons id todo =>
          simp only [Workflow.expandEntries, h.isTriggerId, h.successors, ih]

theorem entryNodes (isTrigger : String → Bool) :
    other.entryNodes isTrigger = w.entryNodes isTrigger := by
  have hnodes : other.nodes.length = w.nodes.length := by
    simpa [Workflow.outline] using congrArg List.length h.outline
  simp only [Workflow.entryNodes, h.expandEntries, entryRoots_eq, h.outline, h.hasIncoming,
    expansionFuel, hnodes, h.connections]

theorem arrows (id : NodeId) : other.arrows id = w.arrows id := by
  rw [Workflow.arrows, Workflow.arrows, h.connections, h.nodeIds]

theorem reach (fuel : Nat) (todo found : List NodeId) :
    other.reach fuel todo found = w.reach fuel todo found := by
  induction fuel generalizing todo found with
  | zero => rfl
  | succ fuel ih =>
      cases todo with
      | nil => rfl
      | cons id todo => simp only [Workflow.reach, h.arrows, ih]

theorem cycles : other.cycles = w.cycles := by
  have htable : other.reachTable = w.reachTable := by
    simp only [reachTable, reachable, h.reach, h.arrows, h.connections, h.nodeIds]
  rw [Workflow.cycles, Workflow.cycles, htable]

theorem ensureAcyclic : other.ensureAcyclic = w.ensureAcyclic := by
  rw [Workflow.ensureAcyclic, Workflow.ensureAcyclic, h.cycles]

end Alike

end Workflow

end WorkflowEngine
