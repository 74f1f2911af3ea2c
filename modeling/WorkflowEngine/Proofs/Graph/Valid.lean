import Mathlib.Data.List.Nodup
import WorkflowEngine.Graph.Cycle

/-!
What validation guarantees of a graph: edges begin and end at nodes, and a run enters at nodes.
Cycles are a matter of policy and are not covered here.
-/
namespace WorkflowEngine

namespace Workflow

variable {w : Workflow} {id : NodeId}

private theorem checkConnections_ok {ids : List NodeId} {connections : List Connection}
    (h : checkConnections ids connections = .ok ()) :
    ∀ edge ∈ connections, edge.fromNodeId ∈ ids ∧ edge.toNodeId ∈ ids := by
  induction connections with
  | nil =>
      intro edge hedge
      cases hedge
  | cons first rest ih =>
      unfold checkConnections at h
      cases hfind : [first.fromNodeId, first.toNodeId].find? (· ∉ ids) with
      | some stray =>
          rw [hfind] at h
          cases h
      | none =>
          rw [hfind] at h
          intro edge hedge
          rcases List.mem_cons.mp hedge with rfl | hedge
          · simpa using hfind
          · exact ih h edge hedge

private theorem checkNodes_ok {seen : List NodeId} {nodes : List NodeSpec}
    (h : checkNodes seen nodes = .ok ()) :
    (nodes.map (·.id)).Nodup ∧ ∀ node ∈ nodes, node.id ∉ seen := by
  induction nodes generalizing seen with
  | nil => exact ⟨List.nodup_nil, by simp⟩
  | cons first rest ih =>
      unfold checkNodes at h
      split at h
      · cases h
      · split at h
        · cases h
        · rename_i hseen
          obtain ⟨hnodup, hrest⟩ := ih h
          have hnew : ∀ node ∈ rest, node.id ≠ first.id ∧ node.id ∉ seen :=
            fun node hnode => not_or.mp (List.mem_cons.not.mp (hrest node hnode))
          refine ⟨List.nodup_cons.mpr ⟨?_, hnodup⟩, List.forall_mem_cons.mpr
            ⟨hseen, fun node hnode => (hnew node hnode).2⟩⟩
          intro hfirst
          obtain ⟨node, hnode, hsame⟩ := List.mem_map.mp hfirst
          exact (hnew node hnode).1 hsame

private theorem checks_of_valid (h : w.validate = .ok ()) :
    checkNodes [] w.nodes = .ok () ∧ checkConnections w.nodeIds w.connections = .ok () := by
  unfold validate at h
  cases hempty : w.nodes.isEmpty with
  | true => simp [hempty, bind, Except.bind, throw, throwThe, MonadExceptOf.throw] at h
  | false =>
      cases hnodes : checkNodes [] w.nodes with
      | error cause => simp [hempty, hnodes, bind, Except.bind] at h
      | ok _ =>
          simp only [hempty, hnodes, bind, Except.bind] at h
          exact ⟨rfl, h⟩

/-- The nodes of a valid definition have different ids. -/
theorem nodup_nodeIds (h : w.validate = .ok ()) : w.nodeIds.Nodup :=
  (checkNodes_ok (checks_of_valid h).1).1

/-- A valid definition has no edge that begins or ends outside. -/
theorem edge_of_valid (h : w.validate = .ok ()) {edge : Connection} (hedge : edge ∈ w.connections) :
    edge.fromNodeId ∈ w.nodeIds ∧ edge.toNodeId ∈ w.nodeIds :=
  checkConnections_ok (checks_of_valid h).2 edge hedge

theorem mem_nodes_of_node? {node : NodeSpec} (h : w.node? id = some node) : node ∈ w.nodes := by
  have hmem := List.mem_of_find?_eq_some h
  exact List.mem_reverse.mp hmem

theorem exists_node_of_mem (h : id ∈ w.nodeIds) : ∃ node, w.node? id = some node := by
  obtain ⟨node, hnode, rfl⟩ := List.mem_map.mp h
  cases hfind : w.node? node.id with
  | some found => exact ⟨found, rfl⟩
  | none =>
      have hmiss := List.find?_eq_none.mp hfind node (List.mem_reverse.mpr hnode)
      simp at hmiss

/-- Each node of a valid definition is found under its id. -/
theorem node?_of_mem (h : w.validate = .ok ()) {node : NodeSpec} (hnode : node ∈ w.nodes) :
    w.node? node.id = some node := by
  obtain ⟨found, hfound⟩ := exists_node_of_mem (List.mem_map_of_mem hnode)
  have hid : found.id = node.id := by simpa using List.find?_some hfound
  rw [hfound, List.inj_on_of_nodup_map (nodup_nodeIds h) (mem_nodes_of_node? hfound) hnode hid]

theorem mem_nodeIds_of_successor (h : w.validate = .ok ()) {output : Option String}
    {target : NodeId} (htarget : target ∈ w.successors id output) : target ∈ w.nodeIds := by
  obtain ⟨edge, hedge, rfl⟩ := List.mem_map.mp htarget
  exact (edge_of_valid h (List.mem_filter.mp (List.mem_filter.mp hedge).1).1).2

/-- Nothing follows an id that is no node. -/
theorem successors_of_unknown (h : w.validate = .ok ()) (hnode : w.node? id = none)
    (output : Option String) : w.successors id output = [] := by
  refine List.eq_nil_iff_forall_not_mem.mpr ?_
  intro target htarget
  obtain ⟨edge, hedge, -⟩ := List.mem_map.mp htarget
  obtain ⟨hconnection, hsource⟩ := List.mem_filter.mp (List.mem_filter.mp hedge).1
  obtain ⟨node, hfound⟩ := exists_node_of_mem (edge_of_valid h hconnection).1
  rw [eq_of_beq hsource, hnode] at hfound
  cases hfound

private theorem expandEntries_subset (h : w.validate = .ok ()) (isTrigger : String → Bool)
    (fuel : Nat) {todo expanded entries : List NodeId} (htodo : ∀ id ∈ todo, id ∈ w.nodeIds)
    (hentries : ∀ id ∈ entries, id ∈ w.nodeIds) :
    ∀ id ∈ w.expandEntries isTrigger fuel todo expanded entries, id ∈ w.nodeIds := by
  induction fuel generalizing todo expanded entries with
  | zero => exact hentries
  | succ fuel ih =>
      cases todo with
      | nil => exact hentries
      | cons first todo =>
          have hrest : ∀ id ∈ todo, id ∈ w.nodeIds :=
            fun id hid => htodo id (List.mem_cons_of_mem _ hid)
          unfold expandEntries
          cases htrigger : w.isTriggerId isTrigger first with
          | true =>
              by_cases hexpanded : first ∈ expanded
              · simp only [hexpanded, if_true]
                exact ih hrest hentries
              · simp only [hexpanded, if_true, if_false]
                refine ih ?_ hentries
                intro id hid
                rcases List.mem_append.mp hid with hnew | hold
                · exact mem_nodeIds_of_successor h hnew
                · exact hrest id hold
          | false =>
              by_cases hseen : first ∈ entries
              · simp only [hseen, if_true, Bool.false_eq_true, if_false]
                exact ih hrest hentries
              · simp only [hseen, Bool.false_eq_true, if_false]
                refine ih hrest ?_
                intro id hid
                rcases List.mem_append.mp hid with hold | hnew
                · exact hentries id hold
                · rw [List.mem_singleton] at hnew
                  exact hnew ▸ htodo first List.mem_cons_self

/-- A run of a valid definition enters at nodes. -/
theorem mem_nodeIds_of_entry (h : w.validate = .ok ()) {isTrigger : String → Bool}
    (hid : id ∈ w.entryNodes isTrigger) : id ∈ w.nodeIds := by
  refine expandEntries_subset h isTrigger _ ?_ (by simp) id hid
  intro root hroot
  obtain ⟨node, hnode, rfl⟩ := List.mem_map.mp hroot
  exact List.mem_map_of_mem (List.mem_filter.mp hnode).1

end Workflow

end WorkflowEngine
