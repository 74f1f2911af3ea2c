import Mathlib.Data.List.Basic
import Mathlib.Logic.Relation
import WorkflowEngine.Proofs.Graph.Valid

/-!
Connections as steps from node to node, and those that are left to a search. A search that follows the
edges of a node once never has more before it than the edges of the nodes it has not seen yet.
-/
namespace WorkflowEngine

namespace Workflow

/-- A connection leads from one node to another. -/
def Leads (w : Workflow) (source target : NodeId) : Prop :=
  ∃ edge ∈ w.connections, edge.fromNodeId = source ∧ edge.toNodeId = target

/-- The edges of nodes that are not dispatched yet. -/
def openEdges (w : Workflow) (dispatched : List NodeId) : List Connection :=
  w.connections.filter fun edge => edge.fromNodeId ∉ dispatched

variable {w : Workflow} {dispatched : List NodeId} {id source target : NodeId}

theorem mem_successors : target ∈ w.successors id none ↔ w.Leads id target := by
  unfold successors edges Leads
  simp [and_assoc]

theorem hasIncoming_iff : w.hasIncoming id = true ↔ ∃ source, w.Leads source id := by
  unfold hasIncoming Leads
  rw [List.any_eq_true]
  constructor
  · rintro ⟨edge, hedge, htarget⟩
    exact ⟨edge.fromNodeId, edge, hedge, rfl, eq_of_beq htarget⟩
  · rintro ⟨_, edge, hedge, -, htarget⟩
    exact ⟨edge, hedge, beq_iff_eq.mpr htarget⟩

theorem Leads.mem_nodeIds (h : w.Leads source target) (hvalid : w.validate = .ok ()) :
    source ∈ w.nodeIds ∧ target ∈ w.nodeIds := by
  obtain ⟨edge, hedge, rfl, rfl⟩ := h
  exact edge_of_valid hvalid hedge

theorem length_openEdges_le (w : Workflow) (dispatched : List NodeId) :
    (w.openEdges dispatched).length ≤ w.connections.length :=
  List.length_filter_le _ _

theorem length_openEdges_cons_le (w : Workflow) (dispatched : List NodeId) (id : NodeId) :
    (w.openEdges (id :: dispatched)).length ≤ (w.openEdges dispatched).length := by
  refine (List.monotone_filter_right w.connections ?_).length_le
  intro edge hedge
  simp only [decide_eq_true_eq, List.mem_cons, not_or] at hedge ⊢
  exact hedge.2

theorem length_successors_le (w : Workflow) (id : NodeId) (output : Option String) :
    (w.successors id output).length ≤ (w.edges id).length := by
  rw [successors, List.length_map]
  exact List.length_filter_le _ _

/-- A node closes its edges when it is dispatched, and at most these join the queue. -/
theorem length_successors_add_le (w : Workflow) (hid : id ∉ dispatched) (output : Option String) :
    (w.successors id output).length + (w.openEdges (id :: dispatched)).length ≤
      (w.openEdges dispatched).length := by
  have hedges := w.length_successors_le id output
  have hsplit : (w.edges id).length + (w.openEdges (id :: dispatched)).length =
      (w.openEdges dispatched).length := by
    unfold edges openEdges
    induction w.connections with
    | nil => rfl
    | cons edge rest ih =>
        by_cases hsame : edge.fromNodeId = id
        · simp [hsame, hid] at ih ⊢
          omega
        · by_cases hdone : edge.fromNodeId ∈ dispatched
          · simpa [hsame, hdone] using ih
          · simp [hsame, hdone] at ih ⊢
            omega
  omega

end Workflow

end WorkflowEngine
