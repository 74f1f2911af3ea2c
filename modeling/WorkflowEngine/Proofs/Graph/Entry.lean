import Mathlib.Data.List.Nodup
import Mathlib.Logic.Relation
import WorkflowEngine.Proofs.Graph.Path

/-!
# Where a run enters

Triggers are replaced by what their edges lead to, whether they form chains or cycles. The expansion
comes to its end, and what it lists are the nodes that are no triggers and have no incoming edge or are
reached through triggers only.

All roots share what was seen before. That changes nothing: the list is what an expansion finds that
walks every way through triggers again and remembers only the way it is on, without repetitions.
-/
namespace WorkflowEngine

namespace Workflow

open Relation

/-- An expansion without bound: `Expands todo expanded entries result` tells that what is still to be
looked at is looked at, one after the other, and that this comes to an end with a result. -/
inductive Expands (w : Workflow) (isTrigger : String → Bool) :
    (todo expanded entries result : List NodeId) → Prop
  | done {expanded entries : List NodeId} : Expands w isTrigger [] expanded entries entries
  | again {id : NodeId} {todo expanded entries result : List NodeId}
      (htrigger : w.isTriggerId isTrigger id = true) (hexpanded : id ∈ expanded)
      (hrest : Expands w isTrigger todo expanded entries result) :
      Expands w isTrigger (id :: todo) expanded entries result
  | trigger {id : NodeId} {todo expanded entries result : List NodeId}
      (htrigger : w.isTriggerId isTrigger id = true) (hexpanded : id ∉ expanded)
      (hrest : Expands w isTrigger (w.successors id none ++ todo) (id :: expanded) entries result) :
      Expands w isTrigger (id :: todo) expanded entries result
  | met {id : NodeId} {todo expanded entries result : List NodeId}
      (htrigger : w.isTriggerId isTrigger id = false) (hentry : id ∈ entries)
      (hrest : Expands w isTrigger todo expanded entries result) :
      Expands w isTrigger (id :: todo) expanded entries result
  | entry {id : NodeId} {todo expanded entries result : List NodeId}
      (htrigger : w.isTriggerId isTrigger id = false) (hentry : id ∉ entries)
      (hrest : Expands w isTrigger todo expanded (entries ++ [id]) result) :
      Expands w isTrigger (id :: todo) expanded entries result

variable {w : Workflow} {isTrigger : String → Bool} {id source target : NodeId}
  {todo expanded entries result : List NodeId}

/-- The steps of an expansion are enough once they are as many as the nodes to be looked at and the
edges of triggers that are still to be expanded. -/
theorem expands_expandEntries {fuel : Nat}
    (hfuel : todo.length + (w.openEdges expanded).length ≤ fuel) :
    w.Expands isTrigger todo expanded entries
      (w.expandEntries isTrigger fuel todo expanded entries) := by
  induction fuel generalizing todo expanded entries with
  | zero =>
      obtain rfl : todo = [] := List.eq_nil_of_length_eq_zero (by omega)
      exact .done
  | succ fuel ih =>
      cases todo with
      | nil => exact .done
      | cons id todo =>
          rw [List.length_cons] at hfuel
          unfold expandEntries
          cases htrigger : w.isTriggerId isTrigger id with
          | true =>
              by_cases hexpanded : id ∈ expanded
              · simp only [hexpanded, if_true]
                exact .again htrigger hexpanded (ih (by omega))
              · have hedges := w.length_successors_add_le hexpanded none
                simp only [hexpanded, if_true, if_false]
                refine .trigger htrigger hexpanded (ih ?_)
                rw [List.length_append]
                omega
          | false =>
              by_cases hentry : id ∈ entries
              · simp only [hentry, if_true, Bool.false_eq_true, if_false]
                exact .met htrigger hentry (ih (by omega))
              · simp only [hentry, Bool.false_eq_true, if_false]
                exact .entry htrigger hentry (ih (by omega))

/-- The expansion of a definition's roots comes to an end. -/
theorem expands_entryNodes (w : Workflow) (isTrigger : String → Bool) :
    w.Expands isTrigger (w.entryRoots isTrigger) [] [] (w.entryNodes isTrigger) := by
  have hroots : (w.entryRoots isTrigger).length ≤ w.nodes.length := by
    rw [entryRoots, List.length_map]
    exact List.length_filter_le _ _
  have hopen := w.length_openEdges_le []
  refine expands_expandEntries ?_
  rw [expansionFuel]
  omega

/-- An edge that leaves a trigger. -/
def LeavesTrigger (w : Workflow) (isTrigger : String → Bool) (source target : NodeId) : Prop :=
  w.isTriggerId isTrigger source = true ∧ w.Leads source target

/-- A way through triggers ends at the first node that is none. -/
theorem eq_of_reflTransGen_leavesTrigger (hsource : w.isTriggerId isTrigger source = false)
    (hway : ReflTransGen (w.LeavesTrigger isTrigger) source target) : target = source := by
  rcases ReflTransGen.cases_head_iff.mp hway with hsame | ⟨next, ⟨htrigger, -⟩, -⟩
  · exact hsame.symm
  · rw [hsource] at htrigger
    cases htrigger

/-- The ways that an expansion is on: each node that is still to be looked at with the triggers that
lead to it. Every edge of an expanded trigger was followed, or its target is to be looked at on a way
through that trigger; and what comes later was put aside on a part of the way. -/
structure OnWays (w : Workflow) (isTrigger : String → Bool) (ways : List (NodeId × List NodeId))
    (expanded entries : List NodeId) : Prop where
  triggers : ∀ id ∈ expanded, w.isTriggerId isTrigger id = true
  others : ∀ id ∈ entries, w.isTriggerId isTrigger id = false
  walked : ∀ item ∈ ways, item.2 ⊆ expanded
  nested : ways.Pairwise fun item later => later.2 ⊆ item.2
  followed : ∀ source ∈ expanded, ∀ target, w.Leads source target →
    target ∈ expanded ∨ target ∈ entries ∨ ∃ way, (target, way) ∈ ways ∧ source ∈ way

namespace OnWays

variable {ways : List (NodeId × List NodeId)} {way : List NodeId}

/-- An expansion begins at its roots. -/
theorem begin (w : Workflow) (isTrigger : String → Bool) (roots : List NodeId) :
    w.OnWays isTrigger (roots.map fun id => (id, [])) [] [] where
  triggers := by simp
  others := by simp
  walked := by simp
  nested := List.pairwise_map.mpr (List.pairwise_of_forall fun _ _ => List.Subset.refl [])
  followed := by simp

/-- A node that was looked at before has nothing to add. -/
theorem skip (h : w.OnWays isTrigger ((id, way) :: ways) expanded entries)
    (hseen : id ∈ expanded ∨ id ∈ entries) : w.OnWays isTrigger ways expanded entries where
  triggers := h.triggers
  others := h.others
  walked := (List.forall_mem_cons.mp h.walked).2
  nested := (List.pairwise_cons.mp h.nested).2
  followed := by
    intro source hsource target hleads
    rcases h.followed source hsource target hleads with hin | hin | ⟨on, hin, hon⟩
    · exact Or.inl hin
    · exact Or.inr (Or.inl hin)
    · rcases List.mem_cons.mp hin with hsame | hin
      · cases hsame
        exact hseen.imp_right Or.inl
      · exact Or.inr (Or.inr ⟨on, hin, hon⟩)

/-- A trigger is replaced by what its edges lead to. -/
theorem expand (h : w.OnWays isTrigger ((id, way) :: ways) expanded entries)
    (htrigger : w.isTriggerId isTrigger id = true) :
    w.OnWays isTrigger ((w.successors id none).map (fun target => (target, id :: way)) ++ ways)
      (id :: expanded) entries where
  triggers := List.forall_mem_cons.mpr ⟨htrigger, h.triggers⟩
  others := h.others
  walked := by
    obtain ⟨hfirst, hrest⟩ := List.forall_mem_cons.mp h.walked
    intro item hitem
    rcases List.mem_append.mp hitem with hitem | hitem
    · obtain ⟨target, -, rfl⟩ := List.mem_map.mp hitem
      exact List.cons_subset_cons id hfirst
    · exact List.subset_cons_of_subset id (hrest item hitem)
  nested := by
    obtain ⟨hfirst, hrest⟩ := List.pairwise_cons.mp h.nested
    have hnew : (w.successors id none).Pairwise fun _ _ => id :: way ⊆ id :: way :=
      List.pairwise_of_forall fun _ _ => List.Subset.refl _
    refine List.pairwise_append.mpr ⟨List.pairwise_map.mpr hnew, hrest, ?_⟩
    intro item hitem later hlater
    obtain ⟨target, -, rfl⟩ := List.mem_map.mp hitem
    exact List.subset_cons_of_subset id (hfirst later hlater)
  followed := by
    intro source hsource target hleads
    rcases List.mem_cons.mp hsource with rfl | hsource
    · have hnext : (target, source :: way) ∈
          (w.successors source none).map fun target => (target, source :: way) :=
        List.mem_map.mpr ⟨target, mem_successors.mpr hleads, rfl⟩
      exact Or.inr (Or.inr ⟨source :: way, List.mem_append_left _ hnext, List.mem_cons_self⟩)
    · rcases h.followed source hsource target hleads with hin | hin | ⟨on, hin, hon⟩
      · exact Or.inl (List.mem_cons_of_mem _ hin)
      · exact Or.inr (Or.inl hin)
      · rcases List.mem_cons.mp hin with hsame | hin
        · cases hsame
          exact Or.inl List.mem_cons_self
        · exact Or.inr (Or.inr ⟨on, List.mem_append_right _ hin, hon⟩)

/-- A node that is no trigger is listed. -/
theorem list (h : w.OnWays isTrigger ((id, way) :: ways) expanded entries)
    (hother : w.isTriggerId isTrigger id = false) :
    w.OnWays isTrigger ways expanded (entries ++ [id]) where
  triggers := h.triggers
  others := by
    intro entry hentry
    rcases List.mem_append.mp hentry with hentry | hentry
    · exact h.others entry hentry
    · exact List.mem_singleton.mp hentry ▸ hother
  walked := (List.forall_mem_cons.mp h.walked).2
  nested := (List.pairwise_cons.mp h.nested).2
  followed := by
    intro source hsource target hleads
    rcases h.followed source hsource target hleads with hin | hin | ⟨on, hin, hon⟩
    · exact Or.inl hin
    · exact Or.inr (Or.inl (List.mem_append_left _ hin))
    · rcases List.mem_cons.mp hin with hsame | hin
      · cases hsame
        exact Or.inr (Or.inl (List.mem_append_right _ (List.mem_singleton.mpr rfl)))
      · exact Or.inr (Or.inr ⟨on, hin, hon⟩)

/-- What expanded triggers lead to is listed, or is reached from what is still to be looked at. -/
theorem listed_or_reached (h : w.OnWays isTrigger ways expanded entries)
    (hother : w.isTriggerId isTrigger target = false)
    (hreach : ReflTransGen (w.LeavesTrigger isTrigger) source target) (hsource : source ∈ expanded) :
    target ∈ entries ∨
      ∃ start ∈ ways.map (·.1), ReflTransGen (w.LeavesTrigger isTrigger) start target := by
  induction hreach using ReflTransGen.head_induction_on with
  | refl =>
      rw [h.triggers target hsource] at hother
      cases hother
  | @head source next hleaves hreach ih =>
      rcases h.followed source hsource next hleaves.2 with hin | hin | ⟨on, hin, -⟩
      · exact ih hin
      · rw [eq_of_reflTransGen_leavesTrigger (h.others next hin) hreach]
        exact Or.inl hin
      · exact Or.inr ⟨next, List.mem_map_of_mem hin, hreach⟩

/-- On the first way, what an expanded trigger leads to was looked at, unless the trigger is itself on
that way. -/
theorem seen (h : w.OnWays isTrigger ((id, way) :: ways) expanded entries)
    (hsource : source ∈ expanded) (hway : source ∉ way) (hseen : id ∈ expanded ∨ id ∈ entries)
    (hleads : w.Leads source target) : target ∈ expanded ∨ target ∈ entries := by
  rcases h.followed source hsource target hleads with hin | hin | ⟨on, hin, hon⟩
  · exact Or.inl hin
  · exact Or.inr hin
  · rcases List.mem_cons.mp hin with hsame | hin
    · cases hsame
      exact hseen
    · exact absurd ((List.pairwise_cons.mp h.nested).1 _ hin hon) hway

end OnWays

theorem mem_nodeIds_of_isTriggerId (h : w.isTriggerId isTrigger id = true) : id ∈ w.nodeIds := by
  rw [isTriggerId, Option.any_eq_true] at h
  obtain ⟨node, hnode, -⟩ := h
  have hid : node.id = id := by simpa using List.find?_some hnode
  exact hid ▸ List.mem_map_of_mem (mem_nodes_of_node? hnode)

theorem length_filter_not_mem_cons_lt {way : List NodeId} (hid : id ∈ w.nodeIds) (hway : id ∉ way) :
    (w.nodeIds.filter (· ∉ id :: way)).length < (w.nodeIds.filter (· ∉ way)).length := by
  have hsplit : w.nodeIds.filter (· ∉ id :: way) =
      (w.nodeIds.filter (· ∉ way)).filter (· ≠ id) := by
    rw [List.filter_filter]
    congr 1
    funext other
    simp [not_or]
  rw [hsplit, List.length_filter_lt_length_iff_exists]
  exact ⟨id, List.mem_filter.mpr ⟨hid, by simpa using hway⟩, by simp⟩

/-- Every way from a node through triggers, in the order of the definition, to where it meets a node
that is no trigger. Nothing is remembered but the way, so that a node is met as often as ways lead to
it; only a way that comes back to one of its own triggers ends there. -/
def expansion (w : Workflow) (isTrigger : String → Bool) (way : List NodeId) (id : NodeId) :
    List NodeId :=
  if _htrigger : w.isTriggerId isTrigger id = true then
    if _hway : id ∈ way then []
    else (w.successors id none).flatMap fun target => expansion w isTrigger (id :: way) target
  else [id]
termination_by (w.nodeIds.filter (· ∉ way)).length
decreasing_by exact length_filter_not_mem_cons_lt (mem_nodeIds_of_isTriggerId _htrigger) _hway

/-- A node that was looked at before leads to nothing new, on whatever longer way. -/
theorem OnWays.expansion_subset {ways : List (NodeId × List NodeId)} {first : NodeId}
    {way longer : List NodeId} (h : w.OnWays isTrigger ((first, way) :: ways) expanded entries)
    (hfirst : first ∈ expanded ∨ first ∈ entries) (hlonger : way ⊆ longer)
    (hseen : id ∈ expanded ∨ id ∈ entries) : w.expansion isTrigger longer id ⊆ entries := by
  induction longer, id using expansion.induct w isTrigger with
  | case1 longer id htrigger hway =>
      unfold expansion
      simp [htrigger, hway]
  | case2 longer id htrigger hway ih =>
      have hexpanded : id ∈ expanded := hseen.resolve_right fun hentry => by
        rw [h.others id hentry] at htrigger
        cases htrigger
      have hnew : id ∉ way := fun hin => hway (hlonger hin)
      unfold expansion
      simp only [htrigger, hway, dif_pos, not_false_eq_true, dif_neg]
      intro target htarget
      obtain ⟨next, hnext, htarget⟩ := List.mem_flatMap.mp htarget
      exact ih next (List.subset_cons_of_subset id hlonger)
        (h.seen hexpanded hnew hfirst (mem_successors.mp hnext)) htarget
  | case3 longer id htrigger =>
      have hentry : id ∈ entries := hseen.resolve_left fun hexpanded =>
        htrigger (h.triggers id hexpanded)
      unfold expansion
      simp [htrigger, hentry]

section EraseDups

theorem eraseDups_of_nodup (h : entries.Nodup) : entries.eraseDups = entries := by
  induction entries with
  | nil => rfl
  | cons first rest ih =>
      obtain ⟨hfirst, hrest⟩ := List.nodup_cons.mp h
      have hkept : rest.filter (fun id => !id == first) = rest :=
        List.filter_eq_self.mpr fun id hid => by
          simpa using fun hsame : id = first => hfirst (hsame ▸ hid)
      rw [List.eraseDups_cons, hkept, ih hrest]

/-- What was listed before adds nothing. -/
theorem eraseDups_append_of_subset {more rest : List NodeId} (h : more ⊆ entries) :
    (entries ++ (more ++ rest)).eraseDups = (entries ++ rest).eraseDups := by
  have hnothing : more.removeAll entries = [] :=
    List.filter_eq_nil_iff.mpr fun id hid => by simpa using h hid
  rw [List.eraseDups_append, List.eraseDups_append]
  congr 2
  rw [List.removeAll, List.filter_append, ← List.removeAll, hnothing, List.nil_append,
    List.removeAll]

end EraseDups

namespace Expands

variable {ways : List (NodeId × List NodeId)}

/-- No entry is listed twice. -/
theorem nodup (h : w.Expands isTrigger todo expanded entries result) (hentries : entries.Nodup) :
    result.Nodup := by
  induction h with
  | done => exact hentries
  | again _ _ _ ih | trigger _ _ _ ih | met _ _ _ ih => exact ih hentries
  | entry _ hentry _ ih =>
      exact ih (List.concat_eq_append ▸ hentries.concat hentry)

/-- An expansion lists what it had listed and what is no trigger and is reached through triggers from
where it has still to look. -/
theorem mem_iff (h : w.Expands isTrigger todo expanded entries result)
    (hways : w.OnWays isTrigger ways expanded entries) (htodo : ways.map (·.1) = todo) :
    target ∈ result ↔ target ∈ entries ∨ w.isTriggerId isTrigger target = false ∧
      ∃ start ∈ todo, ReflTransGen (w.LeavesTrigger isTrigger) start target := by
  induction h generalizing ways with
  | done => simp
  | @again id todo expanded entries result htrigger hexpanded _ ih =>
      obtain ⟨⟨_, way⟩, ways, rfl, rfl, rfl⟩ := List.map_eq_cons_iff.mp htodo
      have hrest := hways.skip (Or.inl hexpanded)
      rw [ih hrest rfl]
      simp only [List.mem_cons, exists_eq_or_imp]
      constructor
      · exact Or.imp_right (And.imp_right Or.inr)
      · rintro (hin | ⟨hother, hreach | hreached⟩)
        · exact Or.inl hin
        · exact (hrest.listed_or_reached hother hreach hexpanded).imp_right fun hreached =>
            ⟨hother, hreached⟩
        · exact Or.inr ⟨hother, hreached⟩
  | @trigger id todo expanded entries result htrigger _ _ ih =>
      obtain ⟨⟨_, way⟩, ways, rfl, rfl, rfl⟩ := List.map_eq_cons_iff.mp htodo
      rw [ih (hways.expand htrigger) (by simp [Function.comp_def])]
      simp only [List.mem_append, mem_successors, List.mem_cons, exists_eq_or_imp]
      refine or_congr_right (and_congr_right fun hother => ?_)
      constructor
      · rintro ⟨start, hleads | hstart, hreach⟩
        · exact Or.inl (.head ⟨htrigger, hleads⟩ hreach)
        · exact Or.inr ⟨start, hstart, hreach⟩
      · rintro (hreach | ⟨start, hstart, hreach⟩)
        · rcases ReflTransGen.cases_head_iff.mp hreach with rfl | ⟨next, hleaves, hreach⟩
          · exact absurd (htrigger.symm.trans hother) (by simp)
          · exact ⟨next, Or.inl hleaves.2, hreach⟩
        · exact ⟨start, Or.inr hstart, hreach⟩
  | @met id todo expanded entries result hother hentry _ ih =>
      obtain ⟨⟨_, way⟩, ways, rfl, rfl, rfl⟩ := List.map_eq_cons_iff.mp htodo
      rw [ih (hways.skip (Or.inr hentry)) rfl]
      simp only [List.mem_cons, exists_eq_or_imp]
      constructor
      · exact Or.imp_right (And.imp_right Or.inr)
      · rintro (hin | ⟨htarget, hreach | hreached⟩)
        · exact Or.inl hin
        · rw [eq_of_reflTransGen_leavesTrigger hother hreach]
          exact Or.inl hentry
        · exact Or.inr ⟨htarget, hreached⟩
  | @entry id todo expanded entries result hother _ _ ih =>
      obtain ⟨⟨_, way⟩, ways, rfl, rfl, rfl⟩ := List.map_eq_cons_iff.mp htodo
      rw [ih (hways.list hother) rfl]
      simp only [List.mem_append, List.mem_cons, List.not_mem_nil, or_false, exists_eq_or_imp,
        or_assoc]
      refine or_congr_right ?_
      constructor
      · rintro (rfl | ⟨htarget, hreached⟩)
        · exact ⟨hother, Or.inl .refl⟩
        · exact ⟨htarget, Or.inr hreached⟩
      · rintro ⟨htarget, hreach | hreached⟩
        · exact Or.inl (eq_of_reflTransGen_leavesTrigger hother hreach)
        · exact Or.inr ⟨htarget, hreached⟩

/-- An expansion lists what it had listed and then what it first meets on its ways. -/
theorem eq_eraseDups (h : w.Expands isTrigger todo expanded entries result)
    (hways : w.OnWays isTrigger ways expanded entries) (htodo : ways.map (·.1) = todo)
    (hentries : entries.Nodup) :
    result = (entries ++ ways.flatMap fun item =>
      w.expansion isTrigger item.2 item.1).eraseDups := by
  induction h generalizing ways with
  | done =>
      obtain rfl := List.map_eq_nil_iff.mp htodo
      simp [eraseDups_of_nodup hentries]
  | @again id todo expanded entries result htrigger hexpanded _ ih =>
      obtain ⟨⟨id, way⟩, ways, rfl, rfl, rfl⟩ := List.map_eq_cons_iff.mp htodo
      have hold := hways.expansion_subset (Or.inl hexpanded) (List.Subset.refl way)
        (Or.inl hexpanded)
      rw [List.flatMap_cons, eraseDups_append_of_subset hold,
        ih (hways.skip (Or.inl hexpanded)) rfl hentries]
  | @trigger id todo expanded entries result htrigger hexpanded _ ih =>
      obtain ⟨⟨id, way⟩, ways, rfl, rfl, rfl⟩ := List.map_eq_cons_iff.mp htodo
      have hway : id ∉ way := fun hin =>
        hexpanded ((List.forall_mem_cons.mp hways.walked).1 hin)
      have hsplit : w.expansion isTrigger way id =
          (w.successors id none).flatMap fun target => w.expansion isTrigger (id :: way) target := by
        rw [expansion]
        simp only [htrigger, hway, dif_pos, not_false_eq_true, dif_neg]
      rw [ih (hways.expand htrigger) (by simp [Function.comp_def]) hentries, List.flatMap_append,
        List.flatMap_map, List.flatMap_cons, hsplit]
  | @met id todo expanded entries result hother hentry _ ih =>
      obtain ⟨⟨id, way⟩, ways, rfl, rfl, rfl⟩ := List.map_eq_cons_iff.mp htodo
      have hold := hways.expansion_subset (Or.inr hentry) (List.Subset.refl way) (Or.inr hentry)
      rw [List.flatMap_cons, eraseDups_append_of_subset hold,
        ih (hways.skip (Or.inr hentry)) rfl hentries]
  | @entry id todo expanded entries result hother hentry _ ih =>
      obtain ⟨⟨id, way⟩, ways, rfl, rfl, rfl⟩ := List.map_eq_cons_iff.mp htodo
      have hlisted : (entries ++ [id]).Nodup := List.concat_eq_append ▸ hentries.concat hentry
      have honly : w.expansion isTrigger way id = [id] := by
        rw [expansion]
        simp [hother]
      rw [List.flatMap_cons, honly, ih (hways.list hother) rfl hlisted, List.append_assoc]

end Expands

theorem mem_entryRoots : id ∈ w.entryRoots isTrigger ↔
    ∃ node ∈ w.nodes, node.id = id ∧
      ((∀ source, ¬w.Leads source id) ∨ isTrigger node.nodeType = true) := by
  unfold entryRoots
  rw [List.mem_map]
  constructor
  · rintro ⟨node, hnode, rfl⟩
    obtain ⟨hnode, hroot⟩ := List.mem_filter.mp hnode
    refine ⟨node, hnode, rfl, ?_⟩
    rw [Bool.or_eq_true, Bool.not_eq_true', ← Bool.not_eq_true, hasIncoming_iff, not_exists] at hroot
    exact hroot
  · rintro ⟨node, hnode, rfl, hroot⟩
    refine ⟨node, List.mem_filter.mpr ⟨hnode, ?_⟩, rfl⟩
    rw [Bool.or_eq_true, Bool.not_eq_true', ← Bool.not_eq_true, hasIncoming_iff, not_exists]
    exact hroot

/-- Of what begins at the roots, a node that is no trigger is reached from itself, having no incoming
edge, or from a trigger. -/
theorem reached_from_roots_iff (h : w.validate = .ok ())
    (hother : w.isTriggerId isTrigger id = false) :
    (∃ root ∈ w.entryRoots isTrigger, ReflTransGen (w.LeavesTrigger isTrigger) root id) ↔
      (id ∈ w.nodeIds ∧ ∀ source, ¬w.Leads source id) ∨
      ∃ trigger ∈ w.nodes, isTrigger trigger.nodeType = true ∧
        ReflTransGen (w.LeavesTrigger isTrigger) trigger.id id := by
  constructor
  · rintro ⟨_, hroot, hreach⟩
    obtain ⟨node, hnode, rfl, hroot⟩ := mem_entryRoots.mp hroot
    cases htrigger : isTrigger node.nodeType with
    | true => exact Or.inr ⟨node, hnode, htrigger, hreach⟩
    | false =>
        have hnone : w.isTriggerId isTrigger node.id = false := by
          rw [isTriggerId, node?_of_mem h hnode, Option.any_some, htrigger]
        obtain rfl := eq_of_reflTransGen_leavesTrigger hnone hreach
        refine Or.inl ⟨List.mem_map_of_mem hnode, hroot.resolve_right ?_⟩
        rw [htrigger]
        exact Bool.false_ne_true
  · rintro (⟨hid, hnone⟩ | ⟨trigger, hnode, htrigger, hreach⟩)
    · obtain ⟨node, hnode, rfl⟩ := List.mem_map.mp hid
      exact ⟨node.id, mem_entryRoots.mpr ⟨node, hnode, rfl, Or.inl hnone⟩, .refl⟩
    · exact ⟨trigger.id, mem_entryRoots.mpr ⟨trigger, hnode, rfl, Or.inr htrigger⟩, hreach⟩

theorem mem_entryNodes_iff (h : w.validate = .ok ()) : id ∈ w.entryNodes isTrigger ↔
    ∃ node ∈ w.nodes, node.id = id ∧ isTrigger node.nodeType = false ∧
      ((∀ source, ¬w.Leads source id) ∨
        ∃ trigger ∈ w.nodes, isTrigger trigger.nodeType = true ∧
          ReflTransGen (w.LeavesTrigger isTrigger) trigger.id id) := by
  have hmem : id ∈ w.entryNodes isTrigger ↔ w.isTriggerId isTrigger id = false ∧
      ∃ root ∈ w.entryRoots isTrigger, ReflTransGen (w.LeavesTrigger isTrigger) root id := by
    simpa using (w.expands_entryNodes isTrigger).mem_iff
      (.begin w isTrigger (w.entryRoots isTrigger)) (by simp [Function.comp_def])
  constructor
  · intro hentry
    obtain ⟨node, hnode, rfl⟩ := List.mem_map.mp (mem_nodeIds_of_entry h hentry)
    obtain ⟨hother, hreached⟩ := hmem.mp hentry
    refine ⟨node, hnode, rfl, ?_, ((reached_from_roots_iff h hother).mp hreached).imp_left (·.2)⟩
    rw [isTriggerId, node?_of_mem h hnode, Option.any_some] at hother
    exact hother
  · rintro ⟨node, hnode, rfl, hnone, hreached⟩
    have hother : w.isTriggerId isTrigger node.id = false := by
      rw [isTriggerId, node?_of_mem h hnode, Option.any_some, hnone]
    exact hmem.mpr ⟨hother, (reached_from_roots_iff h hother).mpr
      (hreached.imp_left fun hnone => ⟨List.mem_map_of_mem hnode, hnone⟩)⟩

theorem expands_roots_iff : w.Expands isTrigger (w.entryRoots isTrigger) [] [] result ↔
    result = ((w.entryRoots isTrigger).flatMap (w.expansion isTrigger [])).eraseDups := by
  have honly : ∀ {result}, w.Expands isTrigger (w.entryRoots isTrigger) [] [] result →
      result = ((w.entryRoots isTrigger).flatMap (w.expansion isTrigger [])).eraseDups := by
    intro result h
    simpa [List.flatMap_map] using
      h.eq_eraseDups (.begin w isTrigger (w.entryRoots isTrigger)) (by simp [Function.comp_def])
        List.nodup_nil
  constructor
  · exact honly
  · rintro rfl
    rw [← honly (w.expands_entryNodes isTrigger)]
    exact w.expands_entryNodes isTrigger

/-- The nodes a run enters at: the expansion of the roots comes to an end, and whatever it ends with is
this list. It names, once each, the nodes that are no triggers and have no incoming edge or are reached
from a trigger on a way that leaves triggers only, in the order in which all those ways first meet
them. -/
theorem entryNodes_exact (h : w.validate = .ok ()) (isTrigger : String → Bool) :
    (∀ result, w.Expands isTrigger (w.entryRoots isTrigger) [] [] result ↔
      result = w.entryNodes isTrigger) ∧
    (w.entryNodes isTrigger).Nodup ∧
    (∀ id, id ∈ w.entryNodes isTrigger ↔
      ∃ node ∈ w.nodes, node.id = id ∧ isTrigger node.nodeType = false ∧
        ((∀ source, ¬w.Leads source id) ∨
          ∃ trigger ∈ w.nodes, isTrigger trigger.nodeType = true ∧
            ReflTransGen (w.LeavesTrigger isTrigger) trigger.id id)) ∧
    w.entryNodes isTrigger =
      ((w.entryRoots isTrigger).flatMap (w.expansion isTrigger [])).eraseDups ∧
    ∀ trigger ∈ w.nodes, isTrigger trigger.nodeType = true →
      trigger.id ∉ w.entryNodes isTrigger := by
  have horder := expands_roots_iff.mp (w.expands_entryNodes isTrigger)
  refine ⟨fun result => horder ▸ expands_roots_iff,
    (w.expands_entryNodes isTrigger).nodup List.nodup_nil, fun id => mem_entryNodes_iff h, horder, ?_⟩
  intro trigger hnode htrigger hentry
  obtain ⟨node, hmem, hid, hnone, -⟩ := (mem_entryNodes_iff h).mp hentry
  rw [List.inj_on_of_nodup_map (nodup_nodeIds h) hmem hnode hid, htrigger] at hnone
  cases hnone

/-- Two triggers that lead to each other, one of them also from a node; a third before them, a node
beside them and one behind them. -/
def Sample.gates : Workflow where
  id := "gates"
  nodes := [⟨"first", "trigger", none, [], none⟩, ⟨"a", "test.step", none, [], none⟩,
    ⟨"second", "trigger", none, [], none⟩, ⟨"before", "trigger", none, [], none⟩,
    ⟨"orphan", "test.step", none, [], none⟩, ⟨"b", "test.step", none, [], none⟩,
    ⟨"behind", "test.step", none, [], none⟩]
  connections := [⟨"first", "second", "default", "default"⟩, ⟨"second", "first", "default", "default"⟩,
    ⟨"first", "a", "default", "default"⟩, ⟨"second", "b", "default", "default"⟩,
    ⟨"before", "a", "default", "default"⟩, ⟨"orphan", "second", "default", "default"⟩,
    ⟨"a", "behind", "default", "default"⟩]

/-- The second trigger is expanded within the first, so that what it leads to comes first. -/
theorem entryNodes_exact_of_gates :
    Sample.gates.validate = .ok () ∧
    Sample.gates.entryNodes (· == "trigger") = ["b", "a", "orphan"] ∧
    Sample.gates.Expands (· == "trigger") ["first", "second", "before", "orphan"] [] []
      ["b", "a", "orphan"] ∧
    (∃ trigger ∈ Sample.gates.nodes, trigger.nodeType = "trigger" ∧
      ReflTransGen (Sample.gates.LeavesTrigger (· == "trigger")) trigger.id "b") ∧
    (¬∃ trigger ∈ Sample.gates.nodes, (trigger.nodeType == "trigger") = true ∧
      ReflTransGen (Sample.gates.LeavesTrigger (· == "trigger")) trigger.id "behind") ∧
    "second" ∉ Sample.gates.entryNodes (· == "trigger") := by
  have hvalid : Sample.gates.validate = .ok () := rfl
  have hentries : Sample.gates.entryNodes (· == "trigger") = ["b", "a", "orphan"] := by decide
  obtain ⟨hends, -, hmem, -, htriggers⟩ := entryNodes_exact hvalid (· == "trigger")
  refine ⟨hvalid, hentries, (hends _).mpr hentries.symm, ?_, ?_, ?_⟩
  · obtain ⟨node, -, hid, -, hnone | ⟨trigger, hnode, htrigger, hreach⟩⟩ :=
      (hmem "b").mp (by rw [hentries]; decide)
    · exact absurd ⟨⟨"second", "b", "default", "default"⟩, by decide, rfl, rfl⟩ (hnone "second")
    · exact ⟨trigger, hnode, eq_of_beq htrigger, hreach⟩
  · intro hreached
    have hbehind : "behind" ∈ Sample.gates.entryNodes (· == "trigger") :=
      (hmem "behind").mpr ⟨⟨"behind", "test.step", none, [], none⟩, by simp [Sample.gates], rfl,
        rfl, Or.inr hreached⟩
    rw [hentries] at hbehind
    exact absurd hbehind (by decide)
  · exact htriggers ⟨"second", "trigger", none, [], none⟩ (by simp [Sample.gates]) rfl

end Workflow

end WorkflowEngine
