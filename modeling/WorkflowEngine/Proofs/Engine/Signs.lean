import WorkflowEngine.Engine.Timeline
import WorkflowEngine.Proofs.Run.Signs

/-!
# Calls without the signs of zeros

An engine whose store and node types take no notice of the signs of zeros answers calls that differ only
in them alike: step by step, and so to their ends.
-/
namespace WorkflowEngine

theorem ExecutionState.updateContext_unsigned (state : ExecutionState) (update : Context) :
    state.unsigned.updateContext update.unsigned = (state.updateContext update).unsigned :=
  congrArg state.unsigned.setContext (Context.unsigned_merge state.context update).symm

namespace Engine

def unsigned (engine : Engine) : Engine :=
  { engine with
    registry := engine.registry.muted
    workflows := engine.workflows.mapValues (·.unsigned) }

variable (engine : Engine)

theorem workflow?_unsigned (id : WorkflowId) :
    engine.unsigned.workflow? id = (engine.workflow? id).map (·.unsigned) :=
  Fields.get?_mapValues ..

theorem accept_unsigned (w : Workflow) : engine.unsigned.accept w.unsigned = engine.accept w := by
  unfold accept
  rw [w.alike_unsigned.validate, w.alike_unsigned.ensureAcyclic]
  rfl

theorem totalSteps_unsigned (w : Workflow) : engine.unsigned.totalSteps w.unsigned = engine.totalSteps w :=
  w.alike_unsigned.executableCount engine.config.isTrigger

theorem activate_unsigned (id : ExecutionId) :
    engine.unsigned.activate id = (engine.activate id).map (·.unsigned) := by
  unfold activate
  change (if engine.isActive id then _ else _) = Except.map _ (if engine.isActive id then _ else _)
  split <;> rfl

theorem register_unsigned (w : Workflow) :
    engine.unsigned.register w.unsigned = (engine.register w).map (·.unsigned) := by
  unfold register
  rw [w.alike_unsigned.validate]
  cases w.validate with
  | error cause => rfl
  | ok _ =>
    exact congrArg (fun workflows => Except.ok { engine.unsigned with workflows })
      (Fields.insert_mapValues _ engine.workflows w.id w)

/-- What is registered with one engine can be registered with the other. -/
theorem register_alike {engine other after : Engine} {w v : Workflow}
    (same : other.unsigned = engine.unsigned) (alike : v.unsigned = w.unsigned)
    (registered : engine.register w = .ok after) :
    ∃ later, other.register v = .ok later ∧ later.unsigned = after.unsigned := by
  have left := other.register_unsigned v
  rw [same, alike, register_unsigned, registered] at left
  cases result : other.register v with
  | error cause =>
    rw [result] at left
    cases left
  | ok later =>
    rw [result] at left
    exact ⟨later, rfl, (Except.ok.inj left).symm⟩

theorem remove_unsigned (id : WorkflowId) : engine.unsigned.remove id = (engine.remove id).unsigned :=
  congrArg (fun workflows => { engine.unsigned with workflows })
    (Fields.erase_mapValues _ engine.workflows id)

end Engine

def RunResult.unsigned (result : RunResult) : RunResult :=
  { result with output := result.output.unsigned }

theorem RunResult.ofRun_unsigned (run : Run) (result : Except EngineError ExecutionStatus) :
    ofRun run.unsigned result = (ofRun run result).unsigned := by
  cases result <;> rfl

def StartRequest.unsigned (request : StartRequest) : StartRequest :=
  { request with workflow := request.workflow.unsigned, context := request.context.unsigned }

def ResumeRequest.unsigned (request : ResumeRequest) : ResumeRequest :=
  { request with
    workflow := request.workflow.map (·.unsigned)
    input := request.input.map (·.unsigned) }

namespace Call

def unsigned : Call → Call
  | .starting request => .starting request.unsigned
  | .created request state => .created request.unsigned state.unsigned
  | .resuming request => .resuming request.unsigned
  | .loading request => .loading request.unsigned
  | .loadingLog request header => .loadingLog request.unsigned header.unsigned
  | .driving scope run => .driving scope.unsigned run.unsigned
  | .ended outcome => .ended (outcome.map (·.unsigned))

/-- The node types of the run that a call drives, if it does, take no notice of the signs of zeros. -/
def Blind (call : Call) : Prop := ∀ scope run, call = .driving scope run → scope.registry.Blind

theorem Blind.of_unsigned {call other : Call} (blind : call.Blind)
    (same : other.unsigned = call.unsigned) : other.Blind := by
  rintro scope run rfl
  cases call with
  | driving before driven =>
    have scopes : scope.unsigned = before.unsigned := (Call.driving.inj same).1
    exact (blind before driven rfl).of_muted (congrArg Scope.registry scopes)
  | _ => cases same

/-- What is left of a call, its engine and its host. -/
def left {σ : Type} [ExecutionStore σ] [BlindStore σ] (place : Call × Engine × Host σ) :
    Call × Engine × Host (Muted σ) :=
  (place.1.unsigned, place.2.1.unsigned, place.2.2.unsigned)

theorem resumedWorkflow_unsigned (engine : Engine) (request : ResumeRequest) (state : ExecutionState) :
    resumedWorkflow engine.unsigned request.unsigned state.unsigned =
      (resumedWorkflow engine request state).map (·.unsigned) := by
  have found : (request.unsigned.workflow <|> engine.unsigned.workflow? state.header.workflowId) =
      (request.workflow <|> engine.workflow? state.header.workflowId).map (·.unsigned) := by
    rw [Engine.workflow?_unsigned, ResumeRequest.unsigned]
    cases request.workflow <;> rfl
  unfold resumedWorkflow
  dsimp only
  rw [show state.unsigned.header.workflowId = state.header.workflowId from rfl, found]
  cases (request.workflow <|> engine.workflow? state.header.workflowId) with
  | none => rfl
  | some w =>
    simp only [Option.map_some, pure_bind, Engine.accept_unsigned]
    change (if w.id ≠ state.header.workflowId then _ else _) =
      Except.map _ (if w.id ≠ state.header.workflowId then _ else _)
    split
    · rfl
    · cases engine.accept w <;> rfl

theorem prepareResume_unsigned (engine : Engine) (request : ResumeRequest) (state : ExecutionState) :
    prepareResume engine.unsigned request.unsigned state.unsigned =
      (prepareResume engine request state).map (Prod.map (·.unsigned) (·.unsigned)) := by
  have resumes : state.unsigned.canResume = state.canResume := by
    unfold ExecutionState.canResume
    rw [show state.unsigned.checkpoints = state.checkpoints.map (·.unsigned) from rfl, List.isEmpty_map]
    rfl
  unfold prepareResume
  rw [resumes, resumedWorkflow_unsigned]
  by_cases refused : (!state.canResume) = true
  · rw [if_pos refused, if_pos refused]
    rfl
  · rw [if_neg refused, if_neg refused]
    cases resumedWorkflow engine request state with
    | error cause => rfl
    | ok w =>
      rw [show request.unsigned.input = request.input.map (·.unsigned) from rfl]
      cases request.input with
      | none => rfl
      | some input =>
        exact congrArg (fun state => Except.ok (w.unsigned, state))
          (state.updateContext_unsigned input)

section

variable {σ : Type} [ExecutionStore σ] [BlindStore σ] (engine : Engine) (host : Host σ)

theorem drive_unsigned (w : Workflow) (state : ExecutionState) :
    drive engine.unsigned w.unsigned state.unsigned host.unsigned =
      (drive engine w state host).map (·.unsigned) (·.unsigned) := by
  have start := Run.start_unsigned (scopeOf engine w) host state (engine.isCancelled state.id)
  exact congrArg (Prod.map (Call.driving (scopeOf engine w).unsigned) id) start

theorem create_unsigned (workflowId : WorkflowId) (userId : String) (context : Context)
    (totalSteps : Nat) :
    Handle.create workflowId userId context.unsigned totalSteps host.unsigned =
      (Handle.create workflowId userId context totalSteps host).map (·.map (·.unsigned))
        (·.unsigned) := by
  let header := host.newHeader workflowId userId context totalSteps
  have insert : ExecutionStore.insert host.unsigned.store header.unsigned =
      (ExecutionStore.insert host.store header).map id (Muted.mk ∘ BlindStore.unsigned) :=
    congrArg (Prod.map id Muted.mk) (BlindStore.insert host.store header)
  rw [Handle.create_eq, Handle.create_eq]
  change (Handle.created header.unsigned (ExecutionStore.insert host.unsigned.store header.unsigned).1,
    host.unsigned.stamp.2.drawId.2.over (ExecutionStore.insert host.unsigned.store header.unsigned).2) = _
  rw [insert]
  change (Handle.created header.unsigned (ExecutionStore.insert host.store header).1, _) =
    (Except.map _ (Handle.created header (ExecutionStore.insert host.store header).1), _)
  cases (ExecutionStore.insert host.store header).1 <;> rfl

private theorem starting_unsigned (request : StartRequest) :
    (starting request).unsigned.next? engine.unsigned host.unsigned =
      ((starting request).next? engine host).map left := by
  have create := create_unsigned host request.workflow.id request.userId request.context
    (engine.totalSteps request.workflow)
  unfold next?
  rw [unsigned]
  dsimp only
  rw [show request.unsigned.workflow = request.workflow.unsigned from rfl, Engine.accept_unsigned]
  cases engine.accept request.workflow with
  | error cause => rfl
  | ok _ =>
    dsimp only
    rw [Engine.totalSteps_unsigned, show Handle.create request.workflow.unsigned.id
      request.unsigned.userId request.unsigned.context _ host.unsigned = _ from create]
    generalize Handle.create request.workflow.id request.userId request.context
      (engine.totalSteps request.workflow) host = created
    obtain ⟨created | created, after⟩ := created <;> rfl

private theorem loading_unsigned (request : ResumeRequest) :
    (loading request).unsigned.next? engine.unsigned host.unsigned =
      ((loading request).next? engine host).map left := by
  have load : ExecutionStore.loadHeader host.unsigned.store request.id =
      (ExecutionStore.loadHeader host.store request.id).map (·.map (·.unsigned)) :=
    BlindStore.loadHeader host.store request.id
  unfold next?
  rw [unsigned]
  dsimp only
  rw [show request.unsigned.id = request.id from rfl, load]
  cases ExecutionStore.loadHeader host.store request.id with
  | error cause => rfl
  | ok found => cases found <;> rfl

private theorem loadingLog_unsigned (request : ResumeRequest) (header : ExecutionHeader) :
    (loadingLog request header).unsigned.next? engine.unsigned host.unsigned =
      ((loadingLog request header).next? engine host).map left := by
  have load : ExecutionStore.loadCheckpoints host.unsigned.store request.id 0 =
      (ExecutionStore.loadCheckpoints host.store request.id 0).map (·.map (·.unsigned)) :=
    BlindStore.loadCheckpoints host.store request.id 0
  unfold next?
  rw [unsigned]
  dsimp only
  rw [show request.unsigned.id = request.id from rfl, load]
  cases ExecutionStore.loadCheckpoints host.store request.id 0 with
  | error cause => rfl
  | ok log =>
    have record : ExecutionState.ofRecord
          (ExecutionStore.assemble header.unsigned (log.map (·.unsigned))) =
        (ExecutionState.ofRecord (ExecutionStore.assemble header log)).unsigned := by
      simp only [ExecutionStore.assemble, ← List.map_take]
      rfl
    simp only [Except.map, record, prepareResume_unsigned]
    cases prepareResume engine request (.ofRecord (ExecutionStore.assemble header log)) with
    | error cause => rfl
    | ok prepared =>
      exact congrArg (fun driven : Call × Host (Muted σ) => some (driven.1, engine.unsigned, driven.2))
        (drive_unsigned engine host prepared.1 prepared.2)

private theorem driving_unsigned (scope : Scope) (run : Run)
    (blind : (driving scope run).Blind) :
    (driving scope run).unsigned.next? engine.unsigned host.unsigned =
      ((driving scope run).next? engine host).map left := by
  let attended : Run := { run with cancelled := run.cancelled || engine.isCancelled run.id }
  let attended' : Run :=
    { run.unsigned with
      cancelled := run.unsigned.cancelled || engine.unsigned.isCancelled run.unsigned.id }
  have ends : attended'.result? = attended.result? := by
    unfold Run.result?
    rw [show attended'.stage = attended.stage.unsigned from rfl]
    cases attended.stage <;> rfl
  have step : attended'.next? scope.unsigned host.unsigned =
      (attended.next? scope host).map (Prod.map (·.unsigned) (·.unsigned)) :=
    Run.next?_unsigned attended scope host (blind scope run rfl)
  unfold next?
  rw [unsigned]
  dsimp only
  rw [ends, step]
  cases attended.result? with
  | some result =>
    dsimp only
    rw [show RunResult.ofRun attended' result = _ from RunResult.ofRun_unsigned attended result]
    rfl
  | none =>
    dsimp only
    rw [Option.map_map, Option.map_map]
    rfl

/-- What is left of a call takes the steps of the call. -/
theorem next?_unsigned {call : Call} (blind : call.Blind) :
    call.unsigned.next? engine.unsigned host.unsigned = (call.next? engine host).map left := by
  cases call with
  | starting request => exact starting_unsigned engine host request
  | created request state =>
    unfold next?
    rw [unsigned]
    dsimp only
    rw [show state.unsigned.id = state.id from rfl, Engine.activate_unsigned]
    cases engine.activate state.id with
    | error cause => rfl
    | ok engine =>
      exact congrArg (fun driven : Call × Host (Muted σ) => some (driven.1, engine.unsigned, driven.2))
        (drive_unsigned engine host request.workflow state)
  | resuming request =>
    unfold next?
    rw [unsigned]
    dsimp only
    rw [show request.unsigned.id = request.id from rfl, Engine.activate_unsigned]
    cases engine.activate request.id <;> rfl
  | loading request => exact loading_unsigned engine host request
  | loadingLog request header => exact loadingLog_unsigned engine host request header
  | driving scope run => exact driving_unsigned engine host scope run blind
  | ended outcome => rfl

end

end Call

end WorkflowEngine
