import Mathlib.Data.List.Nodup
import Mathlib.Logic.Relation
import WorkflowEngine.Engine.Call
import WorkflowEngine.Proofs.Graph.Path

/-!
# Cycles are found exactly

The search from a node finds what a non-empty path leads to, no more and no less, so that the groups of
a definition are the classes of nodes that reach each other and themselves. They are in order, so the
first is the least, and it is the one that a refusal names.

A computation of the strongly connected components, in whatever order it lists them, comes to the same
groups once the components without a cycle are dropped and the rest is sorted.
-/
namespace WorkflowEngine

namespace Workflow

open Relation

section SortedIds

variable {id other : NodeId} {ids others : List NodeId}

theorem mem_insertSorted : other ∈ insertSorted id ids ↔ other = id ∨ other ∈ ids := by
  induction ids with
  | nil => simp [insertSorted]
  | cons first rest ih =>
      unfold insertSorted
      split
      · rename_i hsame
        simp [hsame]
      · split
        · simp
        · simp [ih, or_left_comm]

theorem pairwise_insertSorted (h : ids.Pairwise (· < ·)) :
    (insertSorted id ids).Pairwise (· < ·) := by
  induction ids with
  | nil => simp [insertSorted]
  | cons first rest ih =>
      obtain ⟨hfirst, hrest⟩ := List.pairwise_cons.mp h
      unfold insertSorted
      split
      · exact h
      · rename_i hother
        split
        · rename_i hless
          refine List.pairwise_cons.mpr ⟨List.forall_mem_cons.mpr ⟨hless, ?_⟩, h⟩
          exact fun later hlater => String.lt_trans hless (hfirst later hlater)
        · rename_i hless
          refine List.pairwise_cons.mpr ⟨?_, ih hrest⟩
          intro later hlater
          rcases mem_insertSorted.mp hlater with rfl | hlater
          · by_contra hnot
            exact hother (String.le_antisymm (String.not_lt.mp hnot) (String.not_lt.mp hless))
          · exact hfirst later hlater

theorem mem_sortedIds : other ∈ sortedIds ids ↔ other ∈ ids := by
  unfold sortedIds
  induction ids with
  | nil => simp
  | cons first rest ih => simp [mem_insertSorted, ih]

theorem pairwise_sortedIds (ids : List NodeId) : (sortedIds ids).Pairwise (· < ·) := by
  unfold sortedIds
  induction ids with
  | nil => exact List.Pairwise.nil
  | cons first rest ih => exact pairwise_insertSorted ih

theorem nodup_of_increasing (h : ids.Pairwise (· < ·)) : ids.Nodup := by
  refine List.Pairwise.imp ?_ h
  rintro id _ hless rfl
  exact String.lt_irrefl id hless

/-- Only its members tell one list in increasing order from another. -/
theorem eq_of_increasing (h : ids.Pairwise (· < ·)) (hothers : others.Pairwise (· < ·))
    (hmem : ∀ id, id ∈ ids ↔ id ∈ others) : ids = others := by
  have hperm := (List.perm_ext_iff_of_nodup (nodup_of_increasing h)
    (nodup_of_increasing hothers)).mpr hmem
  refine hperm.eq_of_pairwise ?_ h hothers
  exact fun a b _ _ hless hmore => absurd hmore (String.lt_asymm hless)

end SortedIds

variable {w : Workflow} {id other source target : NodeId} {group : List NodeId}

/-- In a valid definition both ends of every connection are nodes, so all of them count. -/
theorem arrows_eq (h : w.validate = .ok ()) (id : NodeId) : w.arrows id = w.successors id none := by
  have hsame : (w.connections.filter fun edge => edge.fromNodeId == id &&
      w.nodeIds.contains edge.fromNodeId && w.nodeIds.contains edge.toNodeId) = w.edges id := by
    refine List.filter_congr fun edge hedge => ?_
    obtain ⟨hsource, htarget⟩ := edge_of_valid h hedge
    simp [hsource, htarget]
  unfold arrows successors
  rw [hsame]
  simp

/-- A search finds what is reached from where it has still to look. What was found before leads to
nothing else: either it is found already or it is to be looked at. -/
theorem mem_reach (h : w.validate = .ok ()) {fuel : Nat} {todo found : List NodeId}
    (hfuel : todo.length + (w.openEdges found).length ≤ fuel)
    (hfound : ∀ source ∈ found, ∀ target, w.Leads source target → target ∈ found ∨ target ∈ todo) :
    id ∈ w.reach fuel todo found ↔
      id ∈ found ∨ ∃ start ∈ todo, ReflTransGen w.Leads start id := by
  induction fuel generalizing todo found with
  | zero =>
      obtain rfl : todo = [] := List.eq_nil_of_length_eq_zero (by omega)
      simp [reach]
  | succ fuel ih =>
      cases todo with
      | nil => simp [reach]
      | cons first todo =>
          rw [List.length_cons] at hfuel
          unfold reach
          by_cases hseen : first ∈ found
          · -- Whatever a path from a found node meets is found, or is reached from the rest.
            have hrest : ∀ source ∈ found, ∀ target, w.Leads source target →
                target ∈ found ∨ target ∈ todo := by
              intro source hsource target hleads
              rcases hfound source hsource target hleads with hin | hin
              · exact Or.inl hin
              · rcases List.mem_cons.mp hin with rfl | hin
                · exact Or.inl hseen
                · exact Or.inr hin
            have hpath : ∀ {start}, ReflTransGen w.Leads start id → start ∈ found →
                id ∈ found ∨ ∃ start ∈ todo, ReflTransGen w.Leads start id := by
              intro start hpath
              induction hpath using ReflTransGen.head_induction_on with
              | refl => exact Or.inl
              | head hleads hpath ihpath =>
                  intro hsource
                  rcases hrest _ hsource _ hleads with hin | hin
                  · exact ihpath hin
                  · exact Or.inr ⟨_, hin, hpath⟩
            rw [if_pos hseen, ih (by omega) hrest]
            constructor
            · rintro (hin | ⟨start, hstart, hstarts⟩)
              · exact Or.inl hin
              · exact Or.inr ⟨start, List.mem_cons_of_mem _ hstart, hstarts⟩
            · rintro (hin | ⟨start, hstart, hstarts⟩)
              · exact Or.inl hin
              · rcases List.mem_cons.mp hstart with rfl | hstart
                · exact hpath hstarts hseen
                · exact Or.inr ⟨start, hstart, hstarts⟩
          · have hedges := w.length_successors_add_le hseen none
            rw [if_neg hseen, arrows_eq h, ih]
            · simp only [List.mem_cons, List.mem_append, mem_successors]
              constructor
              · rintro ((rfl | hin) | ⟨start, hleads | hstart, hstarts⟩)
                · exact Or.inr ⟨id, Or.inl rfl, .refl⟩
                · exact Or.inl hin
                · exact Or.inr ⟨first, Or.inl rfl, .head hleads hstarts⟩
                · exact Or.inr ⟨start, Or.inr hstart, hstarts⟩
              · rintro (hin | ⟨start, rfl | hstart, hstarts⟩)
                · exact Or.inl (Or.inr hin)
                · rcases ReflTransGen.cases_head_iff.mp hstarts with rfl | ⟨next, hleads, hstarts⟩
                  · exact Or.inl (Or.inl rfl)
                  · exact Or.inr ⟨next, Or.inl hleads, hstarts⟩
                · exact Or.inr ⟨start, Or.inr hstart, hstarts⟩
            · rw [List.length_append]
              omega
            · intro source hsource target hleads
              rcases List.mem_cons.mp hsource with rfl | hsource
              · exact Or.inr (List.mem_append_left _ (mem_successors.mpr hleads))
              · rcases hfound source hsource target hleads with hin | hin
                · exact Or.inl (List.mem_cons_of_mem _ hin)
                · rcases List.mem_cons.mp hin with rfl | hin
                  · exact Or.inl List.mem_cons_self
                  · exact Or.inr (List.mem_append_right _ hin)

/-- What is reachable from a node is what a non-empty path leads to. -/
theorem mem_reachable (h : w.validate = .ok ()) :
    other ∈ w.reachable id ↔ TransGen w.Leads id other := by
  have hopen := w.length_openEdges_le []
  have hfirst : (w.successors id none).length ≤ w.connections.length :=
    Nat.le_trans (w.length_successors_le id none) (List.length_filter_le _ _)
  unfold reachable
  rw [arrows_eq h, mem_reach h (by omega) (by simp), TransGen.head'_iff]
  simp [mem_successors]

theorem lookup_reachTable (hid : id ∈ w.nodeIds) :
    w.reachTable.lookup id = some (w.reachable id) := by
  have hids : id ∈ sortedIds w.nodeIds := mem_sortedIds.mpr hid
  unfold reachTable
  generalize sortedIds w.nodeIds = ids at hids
  induction ids with
  | nil => cases hids
  | cons first rest ih =>
      rw [List.map_cons, List.lookup_cons]
      by_cases hsame : id = first
      · simp [hsame]
      · rw [show (id == first) = false from beq_false_of_ne hsame]
        exact ih ((List.mem_cons.mp hids).resolve_left hsame)

theorem leadsTo_reachTable (h : w.validate = .ok ()) (hid : id ∈ w.nodeIds) :
    leadsTo w.reachTable id other = true ↔ TransGen w.Leads id other := by
  simp only [leadsTo, lookup_reachTable hid, List.contains_iff_mem, mem_reachable h]

theorem mem_nodeIds_of_path (h : w.validate = .ok ()) (hpath : TransGen w.Leads source target) :
    source ∈ w.nodeIds ∧ target ∈ w.nodeIds := by
  obtain ⟨next, hleads, -⟩ := TransGen.head'_iff.mp hpath
  obtain ⟨before, -, hlast⟩ := TransGen.tail'_iff.mp hpath
  exact ⟨(hleads.mem_nodeIds h).1, (hlast.mem_nodeIds h).2⟩

/-- The nodes that a node reaches and that reach it, in order. -/
def groupOf (w : Workflow) (id : NodeId) : List NodeId :=
  sortedIds ((w.reachable id).filter fun other => leadsTo w.reachTable other id)

theorem mem_groupOf (h : w.validate = .ok ()) :
    other ∈ w.groupOf id ↔ TransGen w.Leads id other ∧ TransGen w.Leads other id := by
  rw [groupOf, mem_sortedIds, List.mem_filter, mem_reachable h]
  refine and_congr_right fun hpath => ?_
  exact leadsTo_reachTable h (mem_nodeIds_of_path h hpath).2

/-- A group is listed where its least node is. -/
theorem cycles_eq (w : Workflow) : w.cycles = (sortedIds w.nodeIds).filterMap fun id =>
    if (w.groupOf id).head? = some id then some (w.groupOf id) else none := by
  have hrows : ∀ {α : Type} (f : NodeId × List NodeId → Option α),
      w.reachTable.filterMap f = (sortedIds w.nodeIds).filterMap fun id => f (id, w.reachable id) :=
    fun f => List.filterMap_map
  unfold cycles
  dsimp only
  rw [hrows]
  refine List.filterMap_congr fun id _ => ?_
  rw [← groupOf]
  cases w.groupOf id with
  | nil => simp
  | cons first rest => by_cases hfirst : first = id <;> simp [hfirst]

theorem mem_cycles : group ∈ w.cycles ↔
    ∃ id ∈ w.nodeIds, w.groupOf id = group ∧ group.head? = some id := by
  rw [cycles_eq, List.mem_filterMap]
  constructor
  · rintro ⟨id, hid, hgroup⟩
    obtain ⟨hhead, hgroup⟩ := Option.ite_none_right_eq_some.mp hgroup
    cases hgroup
    exact ⟨id, mem_sortedIds.mp hid, rfl, hhead⟩
  · rintro ⟨id, hid, rfl, hhead⟩
    exact ⟨id, mem_sortedIds.mpr hid, by rw [if_pos hhead]⟩

theorem head_mem_groupOf (h : w.validate = .ok ()) (hcycle : TransGen w.Leads id id) :
    ∃ first rest, w.groupOf id = first :: rest ∧ TransGen w.Leads id first ∧
      TransGen w.Leads first id := by
  have hself : id ∈ w.groupOf id := (mem_groupOf h).mpr ⟨hcycle, hcycle⟩
  obtain ⟨first, rest, hgroup⟩ := List.exists_cons_of_ne_nil (List.ne_nil_of_mem hself)
  exact ⟨first, rest, hgroup, (mem_groupOf h).mp (hgroup ▸ List.mem_cons_self)⟩

/-- Nodes that reach each other have one group. -/
theorem groupOf_eq (h : w.validate = .ok ()) (hto : TransGen w.Leads id other)
    (hback : TransGen w.Leads other id) : w.groupOf id = w.groupOf other := by
  refine eq_of_increasing (pairwise_sortedIds _) (pairwise_sortedIds _) fun node => ?_
  rw [mem_groupOf h, mem_groupOf h]
  exact ⟨fun ⟨hreach, hreached⟩ => ⟨hback.trans hreach, hreached.trans hto⟩,
    fun ⟨hreach, hreached⟩ => ⟨hto.trans hreach, hreached.trans hback⟩⟩

/-- The groups are those of the nodes on a cycle. -/
theorem mem_cycles_iff (h : w.validate = .ok ()) :
    group ∈ w.cycles ↔ ∃ id, TransGen w.Leads id id ∧ w.groupOf id = group := by
  rw [mem_cycles]
  constructor
  · rintro ⟨id, -, rfl, hhead⟩
    obtain ⟨hto, hback⟩ := (mem_groupOf h).mp (List.mem_of_mem_head? hhead)
    exact ⟨id, hto.trans hback, rfl⟩
  · rintro ⟨id, hcycle, rfl⟩
    obtain ⟨first, rest, hgroup, hto, hback⟩ := head_mem_groupOf h hcycle
    refine ⟨first, (mem_nodeIds_of_path h hto).2, (groupOf_eq h hto hback).symm, ?_⟩
    rw [hgroup, List.head?_cons]

/-- Two nodes share a group exactly when each reaches the other. -/
theorem share_iff (h : w.validate = .ok ()) :
    (∃ group ∈ w.cycles, source ∈ group ∧ target ∈ group) ↔
      TransGen w.Leads source target ∧ TransGen w.Leads target source := by
  constructor
  · rintro ⟨group, hgroup, hsource, htarget⟩
    obtain ⟨id, -, rfl⟩ := (mem_cycles_iff h).mp hgroup
    rw [mem_groupOf h] at hsource htarget
    exact ⟨hsource.2.trans htarget.1, htarget.2.trans hsource.1⟩
  · rintro ⟨hto, hback⟩
    have hcycle := hto.trans hback
    exact ⟨w.groupOf source, (mem_cycles_iff h).mpr ⟨source, hcycle, rfl⟩,
      (mem_groupOf h).mpr ⟨hcycle, hcycle⟩, (mem_groupOf h).mpr ⟨hto, hback⟩⟩

/-- A node is in a group exactly when a path leads from it back to itself. -/
theorem occurs_iff (h : w.validate = .ok ()) :
    (∃ group ∈ w.cycles, id ∈ group) ↔ TransGen w.Leads id id := by
  simpa using @share_iff w id id h

theorem increasing_of_mem_cycles (hgroup : group ∈ w.cycles) : group.Pairwise (· < ·) := by
  obtain ⟨id, -, rfl, -⟩ := mem_cycles.mp hgroup
  exact pairwise_sortedIds _

/-- The groups are listed in the order of their first nodes. -/
theorem increasing_cycles (w : Workflow) : w.cycles.Pairwise (List.Lex (· < ·)) := by
  have hhead : ∀ {group : List NodeId} {id : NodeId}, group.head? = some id →
      ∃ rest, group = id :: rest := fun hfirst => ⟨_, (List.eq_cons_of_mem_head? hfirst)⟩
  rw [cycles_eq, List.pairwise_filterMap]
  refine List.Pairwise.imp ?_ (pairwise_sortedIds w.nodeIds)
  intro first second hless group hgroup later hlater
  obtain ⟨hfirst, hgroup⟩ := Option.ite_none_right_eq_some.mp hgroup
  obtain ⟨hsecond, hlater⟩ := Option.ite_none_right_eq_some.mp hlater
  cases hgroup
  cases hlater
  obtain ⟨rest, hrest⟩ := hhead hfirst
  obtain ⟨others, hothers⟩ := hhead hsecond
  rw [hrest, hothers]
  exact .rel hless

theorem nodup_cycles (w : Workflow) : w.cycles.Nodup := by
  refine List.Pairwise.imp ?_ w.increasing_cycles
  rintro group _ hless rfl
  exact List.lex_irrefl String.lt_irrefl _ hless

/-- No node is in two groups. -/
theorem disjoint_cycles (h : w.validate = .ok ()) : w.cycles.Pairwise List.Disjoint := by
  refine (List.nodup_iff_pairwise_ne.mp w.nodup_cycles).imp_of_mem ?_
  intro first second hfirst hsecond hdiffer id hid hother
  refine hdiffer ?_
  obtain ⟨start, -, rfl⟩ := (mem_cycles_iff h).mp hfirst
  obtain ⟨other, -, rfl⟩ := (mem_cycles_iff h).mp hsecond
  rw [mem_groupOf h] at hid hother
  exact (groupOf_eq h hid.1 hid.2).trans (groupOf_eq h hother.1 hother.2).symm

/-- A list of the strongly connected components of a definition, in any order. -/
structure Components (w : Workflow) (components : List (List NodeId)) : Prop where
  covers : components.flatten.Perm w.nodeIds
  strong : ∀ component ∈ components, ∀ id ∈ component, ∀ other,
    other ∈ component ↔ ReflTransGen w.Leads id other ∧ ReflTransGen w.Leads other id

/-- Does a component have a cycle? It does if it has two nodes, or if its only one is connected to
itself. -/
def isCyclic (w : Workflow) (component : List NodeId) : Bool :=
  1 < component.length || component.head?.any fun id =>
    w.connections.any fun edge => edge.fromNodeId == id && edge.toNodeId == id

namespace Components

variable {components : List (List NodeId)} {component : List NodeId}

theorem nodup (h : w.Components components) (hvalid : w.validate = .ok ()) :
    (∀ component ∈ components, component.Nodup) ∧ components.Pairwise List.Disjoint :=
  List.nodup_flatten.mp (h.covers.nodup_iff.mpr (nodup_nodeIds hvalid))

theorem exists_component (h : w.Components components) (hid : id ∈ w.nodeIds) :
    ∃ component ∈ components, id ∈ component :=
  List.mem_flatten.mp (h.covers.mem_iff.mpr hid)

/-- A component has a cycle exactly when any of its nodes is on one. -/
theorem isCyclic_iff (h : w.Components components) (hvalid : w.validate = .ok ())
    (hcomponent : component ∈ components) (hid : id ∈ component) :
    w.isCyclic component = true ↔ TransGen w.Leads id id := by
  have hstrong := h.strong component hcomponent id hid
  have hloop : ∀ {node : NodeId}, (w.connections.any fun edge =>
      edge.fromNodeId == node && edge.toNodeId == node) = true ↔ w.Leads node node := by
    intro node
    simp [Leads, List.any_eq_true]
  unfold isCyclic
  rw [Bool.or_eq_true, decide_eq_true_eq, Option.any_eq_true]
  constructor
  · rintro (hlarge | ⟨node, hnode, hnodes⟩)
    · -- There is another node, and the way there and back is a cycle.
      obtain ⟨other, hother, hdiffer⟩ : ∃ other ∈ component, other ≠ id := by
        by_contra hnone
        have hsame : component = List.replicate component.length id :=
          List.eq_replicate_of_mem fun other hother => not_not.mp fun hdiffer =>
            hnone ⟨other, hother, hdiffer⟩
        have hone := List.nodup_replicate.mp (hsame ▸ (h.nodup hvalid).1 component hcomponent)
        omega
      obtain ⟨hto, hback⟩ := (hstrong other).mp hother
      exact ((reflTransGen_iff_eq_or_transGen.mp hto).resolve_left hdiffer).trans_left hback
    · obtain ⟨hto, hback⟩ := (hstrong node).mp (List.mem_of_mem_head? hnode)
      exact TransGen.trans_right hto (TransGen.head' (hloop.mp hnodes) hback)
  · intro hcycle
    by_cases hlarge : 1 < component.length
    · exact Or.inl hlarge
    · obtain ⟨node, rfl⟩ : ∃ node, component = [node] :=
        List.length_eq_one_iff.mp (by have := List.length_pos_of_mem hid; omega)
      obtain rfl := List.mem_singleton.mp hid
      obtain ⟨next, hleads, hback⟩ := TransGen.head'_iff.mp hcycle
      have hnext := (hstrong next).mpr ⟨.single hleads, hback⟩
      rw [List.mem_singleton.mp hnext] at hleads
      exact Or.inr ⟨id, rfl, hloop.mpr hleads⟩

theorem sortedIds_eq (h : w.Components components) (hvalid : w.validate = .ok ())
    (hcomponent : component ∈ components) (hid : id ∈ component) (hcycle : TransGen w.Leads id id) :
    sortedIds component = w.groupOf id := by
  refine eq_of_increasing (pairwise_sortedIds _) (pairwise_sortedIds _) fun other => ?_
  rw [mem_sortedIds, h.strong component hcomponent id hid, mem_groupOf hvalid]
  constructor
  · rintro ⟨hto, hback⟩
    exact ⟨hcycle.trans_left hto, TransGen.trans_right hback hcycle⟩
  · rintro ⟨hto, hback⟩
    exact ⟨hto.to_reflTransGen, hback.to_reflTransGen⟩

theorem exists_mem (hcyclic : w.isCyclic component = true) : ∃ id, id ∈ component := by
  cases component with
  | nil => simp [isCyclic] at hcyclic
  | cons first rest => exact ⟨first, List.mem_cons_self⟩

/-- The groups are the components that have a cycle, each sorted. -/
theorem cycles_perm (h : w.Components components) (hvalid : w.validate = .ok ()) :
    w.cycles.Perm ((components.filter w.isCyclic).map sortedIds) := by
  obtain ⟨-, hdisjoint⟩ := h.nodup hvalid
  have hsorted : ((components.filter w.isCyclic).map sortedIds).Nodup := by
    rw [List.nodup_iff_pairwise_ne, List.pairwise_map]
    refine (hdisjoint.filter w.isCyclic).imp_of_mem ?_
    intro first second hfirst _ hapart hsame
    obtain ⟨id, hid⟩ := exists_mem (List.mem_filter.mp hfirst).2
    exact hapart hid (mem_sortedIds.mp (hsame ▸ mem_sortedIds.mpr hid))
  refine (List.perm_ext_iff_of_nodup w.nodup_cycles hsorted).mpr fun group => ?_
  rw [mem_cycles_iff hvalid, List.mem_map]
  constructor
  · rintro ⟨id, hcycle, rfl⟩
    obtain ⟨component, hcomponent, hid⟩ :=
      h.exists_component (mem_nodeIds_of_path hvalid hcycle).1
    exact ⟨component, List.mem_filter.mpr
      ⟨hcomponent, (h.isCyclic_iff hvalid hcomponent hid).mpr hcycle⟩,
      h.sortedIds_eq hvalid hcomponent hid hcycle⟩
  · rintro ⟨component, hkept, rfl⟩
    obtain ⟨hcomponent, hcyclic⟩ := List.mem_filter.mp hkept
    obtain ⟨id, hid⟩ := exists_mem hcyclic
    have hcycle := (h.isCyclic_iff hvalid hcomponent hid).mp hcyclic
    exact ⟨id, hcycle, (h.sortedIds_eq hvalid hcomponent hid hcycle).symm⟩

end Components

/-- A definition without a cycle passes, and any other is refused with the first of its groups. -/
theorem ensureAcyclic_of_cycle (h : w.validate = .ok ()) (hcycle : TransGen w.Leads id id) :
    ∃ group others, w.cycles = group :: others ∧
      w.ensureAcyclic = .error (.cyclicDependency group) := by
  obtain ⟨group, hgroup, -⟩ := (occurs_iff h).mpr hcycle
  obtain ⟨first, others, hcycles⟩ := List.exists_cons_of_ne_nil (List.ne_nil_of_mem hgroup)
  exact ⟨first, others, hcycles, by rw [ensureAcyclic, hcycles]⟩

theorem ensureAcyclic_ok_iff (h : w.validate = .ok ()) :
    w.ensureAcyclic = .ok () ↔ ∀ id, ¬TransGen w.Leads id id := by
  constructor
  · intro hok id hcycle
    obtain ⟨group, others, -, herror⟩ := ensureAcyclic_of_cycle h hcycle
    rw [herror] at hok
    cases hok
  · intro hnone
    have hempty : w.cycles = [] := by
      refine List.eq_nil_iff_forall_not_mem.mpr fun group hgroup => ?_
      obtain ⟨id, hcycle, -⟩ := (mem_cycles_iff h).mp hgroup
      exact hnone id hcycle
    rw [ensureAcyclic, hempty]

/-- Where cycles are not allowed, a start is refused for one exactly when there is one. -/
theorem refused_as_cyclic_iff {σ : Type} [ExecutionStore σ] {engine : Engine} {host : Host σ}
    (h : w.validate = .ok ()) (hpolicy : engine.config.cyclePolicyFor w = .reject)
    (userId : String) (context : Context) :
    (∃ nodes, Call.next? (.starting ⟨w, userId, context⟩) engine host =
      some (Call.refuse (.workflow (.cyclicDependency nodes)), engine, host)) ↔
        ∃ id, TransGen w.Leads id id := by
  constructor
  · rintro ⟨nodes, hnext⟩
    by_contra hnone
    have hok := (ensureAcyclic_ok_iff h).mpr fun id hcycle => hnone ⟨id, hcycle⟩
    -- What is left to go wrong is the first write, and a store does not tell of cycles.
    simp only [Call.next?, Engine.accept, h, hpolicy, hok, Except.mapError, Handle.create] at hnext
    split at hnext
    · rename_i hcreate
      split at hcreate <;> cases hcreate
      simp [Call.refuse] at hnext
    · simp [Call.refuse] at hnext
  · rintro ⟨id, hcycle⟩
    obtain ⟨group, -, -, herror⟩ := ensureAcyclic_of_cycle h hcycle
    refine ⟨group, ?_⟩
    simp only [Call.next?, Engine.accept, h, hpolicy, herror, Except.mapError]

/-- The groups of a valid definition are its nodes on cycles, together exactly where each reaches the
other, each group once and all in order; they are its strongly connected components that have a cycle.
A definition is refused exactly when it has a cycle, for the least group. -/
theorem cycles_exact (h : w.validate = .ok ()) :
    (∀ id, (∃ group ∈ w.cycles, id ∈ group) ↔ TransGen w.Leads id id) ∧
    (∀ source target, (∃ group ∈ w.cycles, source ∈ group ∧ target ∈ group) ↔
      TransGen w.Leads source target ∧ TransGen w.Leads target source) ∧
    w.cycles.Pairwise List.Disjoint ∧
    (∀ group ∈ w.cycles, group.Pairwise (· < ·)) ∧
    w.cycles.Pairwise (List.Lex (· < ·)) ∧
    (∀ components, w.Components components →
      w.cycles.Perm ((components.filter w.isCyclic).map sortedIds)) ∧
    (w.ensureAcyclic = .ok () ↔ ∀ id, ¬TransGen w.Leads id id) ∧
    (∀ id, TransGen w.Leads id id → ∃ group others, w.cycles = group :: others ∧
      (∀ other ∈ others, List.Lex (· < ·) group other) ∧
      w.ensureAcyclic = .error (.cyclicDependency group)) ∧
    ∀ {σ : Type} [ExecutionStore σ] (engine : Engine) (host : Host σ) (userId : String)
      (context : Context), engine.config.cyclePolicyFor w = .reject →
      ((∃ nodes, Call.next? (.starting ⟨w, userId, context⟩) engine host =
        some (Call.refuse (.workflow (.cyclicDependency nodes)), engine, host)) ↔
          ∃ id, TransGen w.Leads id id) := by
  refine ⟨fun id => occurs_iff h, fun source target => share_iff h, disjoint_cycles h,
    fun group => increasing_of_mem_cycles, w.increasing_cycles,
    fun components hcomponents => hcomponents.cycles_perm h, ensureAcyclic_ok_iff h, ?_,
    fun engine host userId context hpolicy => refused_as_cyclic_iff h hpolicy userId context⟩
  intro id hcycle
  obtain ⟨group, others, hcycles, herror⟩ := ensureAcyclic_of_cycle h hcycle
  have hincreasing := w.increasing_cycles
  rw [hcycles] at hincreasing
  exact ⟨group, others, hcycles, (List.pairwise_cons.mp hincreasing).1, herror⟩

/-- Two rings that share a node, a loop, and a node that leads to a ring and is in none. -/
def Sample.rings : Workflow where
  id := "rings"
  nodes := ["e", "d", "c", "b", "a"].map fun id => { id, nodeType := "test.step" }
  connections := [⟨"a", "b", "default", "default"⟩, ⟨"b", "a", "default", "default"⟩,
    ⟨"b", "c", "default", "default"⟩, ⟨"c", "b", "default", "default"⟩,
    ⟨"c", "b", "again", "default"⟩, ⟨"d", "d", "default", "default"⟩,
    ⟨"e", "a", "default", "default"⟩]

/-- The rings are one group, and the loop is another. -/
theorem cycles_exact_of_rings :
    Sample.rings.validate = .ok () ∧
    TransGen Sample.rings.Leads "a" "c" ∧ ¬TransGen Sample.rings.Leads "e" "e" ∧
    Sample.rings.Components [["d"], ["b", "c", "a"], ["e"]] ∧
    Sample.rings.cycles.Perm
      (([["d"], ["b", "c", "a"], ["e"]].filter Sample.rings.isCyclic).map sortedIds) ∧
    Sample.rings.ensureAcyclic = .error (.cyclicDependency ["a", "b", "c"]) := by
  have hvalid : Sample.rings.validate = .ok () := rfl
  have hgroups : Sample.rings.cycles = [["a", "b", "c"], ["d"]] := by decide
  obtain ⟨hoccurs, hshare, -, -, -, hperm, -, hnames, -⟩ := cycles_exact hvalid
  have hmutual : ∀ source target, (ReflTransGen Sample.rings.Leads source target ∧
      ReflTransGen Sample.rings.Leads target source) ↔
        target = source ∨ ∃ group ∈ Sample.rings.cycles, source ∈ group ∧ target ∈ group := by
    intro source target
    rw [hshare, reflTransGen_iff_eq_or_transGen, reflTransGen_iff_eq_or_transGen]
    by_cases hsame : target = source
    · simp [hsame]
    · simp [hsame, Ne.symm hsame]
  have hcomponents : Sample.rings.Components [["d"], ["b", "c", "a"], ["e"]] := by
    refine ⟨by decide, ?_⟩
    intro component hcomponent id hid other
    rw [hmutual, hgroups]
    simp only [List.mem_cons, List.not_mem_nil, or_false] at hcomponent
    rcases hcomponent with rfl | rfl | rfl <;>
      simp only [List.mem_cons, List.not_mem_nil, or_false] at hid <;>
      rcases hid with rfl | rfl | rfl <;> simp <;> tauto
  have hfirst : Sample.rings.Leads "a" "b" :=
    ⟨⟨"a", "b", "default", "default"⟩, by decide, rfl, rfl⟩
  have hsecond : Sample.rings.Leads "b" "c" :=
    ⟨⟨"b", "c", "default", "default"⟩, by decide, rfl, rfl⟩
  refine ⟨hvalid, .head hfirst (.single hsecond), ?_, hcomponents, hperm _ hcomponents, ?_⟩
  · rw [← hoccurs, hgroups]
    decide
  · obtain ⟨group, others, hfirst, -, herror⟩ :=
      hnames "a" ((hshare "a" "a").mp (by rw [hgroups]; decide)).1
    rw [hgroups] at hfirst
    cases hfirst
    exact herror

end Workflow

end WorkflowEngine
