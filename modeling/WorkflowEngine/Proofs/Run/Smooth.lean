import WorkflowEngine.Proofs.Graph.Valid
import WorkflowEngine.Proofs.Run.Walk

/-!
The smooth version of a scope: of every node type the executors answer at once what they would come
to, but none of them pauses, and nodes that are known to fail hand their context on. A visit of a
scope is a visit of its smooth version, whatever the node came to.

How long a node takes is not kept, nor what it announces.
-/
namespace WorkflowEngine

theorem Fields.get?_insert {α : Type} (fields : Fields α) (key other : String) (value : α) :
    (fields.insert key value).get? other =
      if other = key then some value else fields.get? other := by
  induction fields with
  | nil => simp [insert, get?, eq_comm]
  | cons first rest ih =>
      obtain ⟨name, old⟩ := first
      unfold insert
      by_cases hsame : key = name
      · subst hsame
        by_cases hother : other = key
        · simp [get?, hother]
        · simp [get?, hother, Ne.symm hother]
      · rw [if_neg hsame]
        by_cases hless : key < name
        · rw [if_pos hless]
          by_cases hother : other = key
          · simp [get?, hother]
          · simp [get?, hother, Ne.symm hother]
        · rw [if_neg hless]
          by_cases hname : name = other
          · have hother : other ≠ key := fun heq => hsame (heq.symm.trans hname.symm)
            simp [get?, hname, hother]
          · simpa [get?, hname] using ih

namespace Registry

theorem get?_register (registry : Registry) (executor : Executor) (nodeType : String) :
    (registry.register executor).get? nodeType =
      if nodeType = executor.nodeType then some executor else registry.get? nodeType :=
  Fields.get?_insert ..

/-- Executors made for a list of types are found under them. -/
theorem get?_registerAll (make : String → Executor)
    (hmake : ∀ nodeType, (make nodeType).nodeType = nodeType) (types : List String)
    (registry : Registry) {nodeType : String} (h : nodeType ∈ types) :
    (registry.registerAll (types.map make)).get? nodeType = some (make nodeType) := by
  -- Registering changes the registry, and an earlier type may be registered again.
  have hall : ∀ (types : List String) (registry : Registry),
      (nodeType ∈ types ∨ registry.get? nodeType = some (make nodeType)) →
        (registry.registerAll (types.map make)).get? nodeType = some (make nodeType) := by
    intro types
    induction types with
    | nil => exact fun registry hfound => hfound.resolve_left (by simp)
    | cons first types ih =>
        intro registry hfound
        apply ih (registry.register (make first))
        rw [get?_register, hmake]
        by_cases hfirst : nodeType = first
        · exact Or.inr (by rw [if_pos hfirst, hfirst])
        · rw [if_neg hfirst]
          exact hfound.imp_left fun hmem => (List.mem_cons.mp hmem).resolve_left hfirst
  exact hall types registry (Or.inl h)

end Registry

/-- The outcome of a node that goes on instead of pausing. -/
def NodeOutcome.unpaused : NodeOutcome → NodeOutcome
  | .pause context => .proceed context
  | outcome => outcome

namespace NodeOutcome

@[simp] theorem isPause_unpaused (outcome : NodeOutcome) : outcome.unpaused.isPause = false := by
  cases outcome <;> rfl

@[simp] theorem context_unpaused (outcome : NodeOutcome) :
    outcome.unpaused.context = outcome.context := by
  cases outcome <;> rfl

@[simp] theorem selection_unpaused (outcome : NodeOutcome) :
    outcome.unpaused.selection = outcome.selection := by
  cases outcome <;> rfl

end NodeOutcome

namespace Scope

/-- The nodes of a definition come to something that depends on their id, their configuration and
the context only. -/
def Functional (scope : Scope) : Prop :=
  ∀ node ∈ scope.workflow.nodes, ∀ executor, scope.registry.get? node.nodeType = some executor →
    ∀ ctx ctx' : NodeContext, ctx.nodeId = ctx'.nodeId → ctx.config = ctx'.config →
      ctx.context = ctx'.context → (executor.execute ctx).answer? = (executor.execute ctx').answer?

/-- A call that answers at once what it would come to: a failed node hands its context on, and a
node that would pause goes on. -/
def smoothly (scope : Scope) (failed : List NodeId) (nodeType : String) (ctx : NodeContext) :
    Behaviour :=
  if ctx.nodeId ∈ failed then .answer (.ok (.proceed ctx.context))
  else
    match (scope.registry.get? nodeType).bind fun executor => (executor.execute ctx).answer? with
    | some result => .answer (result.map NodeOutcome.unpaused)
    | none => .hang false

/-- An engine whose nodes neither pause nor fail where those of a scope did. -/
def smooth (scope : Scope) (failed : List NodeId) : Engine where
  config := scope.config
  registry := Registry.empty.registerAll
    ((scope.workflow.nodes.map (·.nodeType)).map fun nodeType =>
      { nodeType := nodeType, execute := scope.smoothly failed nodeType })
  tools := scope.tools

variable {scope : Scope} {context : Context} {visited queue failed : List NodeId}
  {checkpoint : Checkpoint} {outcome : Option NodeOutcome}

theorem smooth_get? {node : NodeSpec} (h : node ∈ scope.workflow.nodes) :
    (scope.smooth failed).registry.get? node.nodeType = some
      { nodeType := node.nodeType, execute := scope.smoothly failed node.nodeType } :=
  Registry.get?_registerAll
    (fun nodeType => { nodeType := nodeType, execute := scope.smoothly failed nodeType })
    (fun _ => rfl) _ _ (List.mem_map_of_mem h)

/-- Whatever the next node came to, in the smooth version it answers, with the same context and
followed by the same nodes. -/
theorem Visits.smooth (h : scope.Visits context visited queue checkpoint outcome)
    (hqueue : ∀ id ∈ queue, id ∈ scope.workflow.nodeIds) (hfunctional : scope.Functional)
    (hfailed : checkpoint.nodeId ∈ failed ↔ outcome = none) :
    ∃ node answer, node.id = checkpoint.nodeId ∧ scope.workflow.node? node.id = some node ∧
      (∀ ctx : NodeContext, ctx.nodeId = node.id → ctx.config = node.config →
        ctx.context = context → scope.smoothly failed node.nodeType ctx = .answer (.ok answer)) ∧
      answer.isPause = false ∧ answer.context = checkpoint.context ∧
      Run.followed scope node answer = scope.followedBy checkpoint.nodeId outcome := by
  cases h with
  | @success node pending executor called outcome _ hfront hnode hexecutor hid hconfig hcontext
      hanswer hcheckpoint =>
      obtain ⟨hsame, hafter, -, -⟩ := hcheckpoint
      have hworks : node.id ∉ failed := by
        rw [← hsame, hfailed]
        simp
      refine ⟨node, outcome.unpaused, hsame.symm, hnode, ?_, by simp, by simp [hafter], ?_⟩
      · intro ctx hctxid hctxconfig hctxcontext
        have hanswers : (executor.execute ctx).answer? = some (.ok outcome) := by
          rw [← hanswer]
          apply hfunctional node (Workflow.mem_nodes_of_node? hnode) executor hexecutor
          · exact hctxid.trans hid.symm
          · exact hctxconfig.trans hconfig.symm
          · exact hctxcontext.trans hcontext.symm
        have hnew : ctx.nodeId ∉ failed := hctxid ▸ hworks
        unfold smoothly
        simp [hnew, hexecutor, hanswers, Except.map]
      · simp [Run.followed, followedBy, hsame]
  | @failure pending _ hfront hcheckpoint =>
      obtain ⟨hcontext, -, -⟩ := hcheckpoint
      have hfails : checkpoint.nodeId ∈ failed := hfailed.mpr rfl
      obtain ⟨node, hnode⟩ := Workflow.exists_node_of_mem (hqueue _ (mem_of_front hfront).1)
      have hid := Workflow.node?_id hnode
      refine ⟨node, .proceed context, hid, hid ▸ hnode, ?_, rfl, hcontext.symm, ?_⟩
      · intro ctx hctxid hctxconfig hctxcontext
        have hknown : ctx.nodeId ∈ failed := by
          rw [hctxid, hid]
          exact hfails
        unfold smoothly
        rw [if_pos hknown, hctxcontext]
      · simp [Run.followed, followedBy, hid, NodeOutcome.selection]

end Scope

/-- The queue of a walk of a valid definition holds nodes only. -/
theorem Trail.mem_nodeIds {scope : Scope} {initial : Context} {visits : List Visit}
    (h : Trail scope initial visits) (hvalid : scope.workflow.validate = .ok ()) :
    ∀ id ∈ scope.continuation (logOf visits), id ∈ scope.workflow.nodeIds := by
  induction h with
  | nil => exact fun id hid => Workflow.mem_nodeIds_of_entry hvalid hid
  | @visit visits next _ hnext ih =>
      obtain ⟨pending, hfront, hpending⟩ := hnext.step
      intro id hid
      rw [logOf_append, Scope.continuation_append, hpending] at hid
      rcases List.mem_append.mp hid with hold | hnew
      · exact ih id ((Scope.mem_of_front hfront).2 id hold)
      · exact Workflow.mem_nodeIds_of_successor hvalid hnew

end WorkflowEngine
