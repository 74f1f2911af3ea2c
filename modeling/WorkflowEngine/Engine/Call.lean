import WorkflowEngine.Engine.Basic
import WorkflowEngine.Run.Step
import WorkflowEngine.State.Operation

/-!
# Calls of an engine

A call starts a fresh execution or resumes a stored one, and is over when the run it leads to is over.
Like a run it moves in single steps, so that what other calls do in between can be told. Until the run
begins a call may be refused, with an error; from then on it has a result.
-/
namespace WorkflowEngine

/-- The outcome of one run. -/
structure RunResult where
  success : Bool
  executionId : ExecutionId
  status : ExecutionStatus
  output : Context
  error : Option String
  retryable : Bool
  deriving Inhabited

namespace RunResult

/-- What is told about a run that is over. -/
def ofRun (run : Run) : Except EngineError ExecutionStatus → RunResult
  | .ok status =>
    { success := status != .failed
      executionId := run.id
      status := status
      output := run.state.context
      error := none
      retryable := false }
  | .error cause =>
    { success := false
      executionId := run.id
      status := run.state.status
      output := run.state.context
      error := some cause.message
      retryable := cause.isRetryable }

end RunResult

/-- A fresh execution to start. -/
structure StartRequest where
  workflow : Workflow
  userId : String
  context : Context

/-- A stored execution to go on with. -/
structure ResumeRequest where
  id : ExecutionId
  /-- The definition to follow; the registered one, if none is given. -/
  workflow : Option Workflow := none
  /-- What to set in the context first. -/
  input : Option Context := none

inductive Call where
  | starting (request : StartRequest)
  /-- The execution is in the store, but not active yet. -/
  | created (request : StartRequest) (state : ExecutionState)
  | resuming (request : ResumeRequest)
  /-- Active; the header is read next. -/
  | loading (request : ResumeRequest)
  /-- The header is read; the log is read next. -/
  | loadingLog (request : ResumeRequest) (header : ExecutionHeader)
  | driving (scope : Scope) (run : Run)
  | ended (outcome : Except EngineError RunResult)

namespace Call

/-- Start an execution of a registered definition. -/
def startNamed (engine : Engine) (id : WorkflowId) (userId : String) (context : Context) : Call :=
  match engine.workflow? id with
  | some workflow => .starting ⟨workflow, userId, context⟩
  | none => .ended (.error (.workflow (.notFound id)))

def outcome? : Call → Option (Except EngineError RunResult)
  | .ended outcome => some outcome
  | _ => none

/-- The execution a call runs, once it does. -/
def running? : Call → Option ExecutionId
  | .driving _ run => some run.id
  | _ => none

/-- The definition a resumed execution follows: the one given or else the registered one, which has to
be the execution's own and fit to run. -/
def resumedWorkflow (engine : Engine) (request : ResumeRequest) (state : ExecutionState) :
    Except EngineError Workflow := do
  let owner := state.header.workflowId
  let workflow ←
    match request.workflow <|> engine.workflow? owner with
    | some workflow => pure workflow
    | none => throw (.workflow (.notFound owner))
  if workflow.id ≠ owner then
    throw (.workflow (.invalid ("execution " ++ request.id.toText ++ " belongs to workflow " ++
      owner ++ ", not " ++ workflow.id)))
  engine.accept workflow
  return workflow

/-- The definition and the state a resumed run begins with. -/
def prepareResume (engine : Engine) (request : ResumeRequest) (state : ExecutionState) :
    Except EngineError (Workflow × ExecutionState) := do
  if !state.canResume then throw (.notResumable request.id state.status)
  let workflow ← resumedWorkflow engine request state
  match request.input with
  | some input => return (workflow, state.updateContext input)
  | none => return (workflow, state)

def scopeOf (engine : Engine) (workflow : Workflow) : Scope where
  workflow := workflow
  config := engine.config
  registry := engine.registry
  tools := engine.tools

variable {σ : Type}

/-- Begin the run of an active execution. -/
def drive (engine : Engine) (workflow : Workflow) (state : ExecutionState) (host : Host σ) :
    Call × Host σ :=
  let scope := scopeOf engine workflow
  let (run, host) := Run.start scope state (engine.isCancelled state.id) host
  (.driving scope run, host)

/-- Refuse a call. -/
def refuse (cause : EngineError) : Call := .ended (.error cause)

variable [ExecutionStore σ]

/-- The next thing a call does by itself; nothing, if it has to wait or is over. -/
def next? (call : Call) (engine : Engine) (host : Host σ) : Option (Call × Engine × Host σ) :=
  match call with
  | .starting request =>
    match engine.accept request.workflow with
    | .error cause => some (refuse cause, engine, host)
    | .ok () =>
      match Handle.create request.workflow.id request.userId request.context
          (engine.totalSteps request.workflow) host with
      | (.error cause, host) => some (refuse cause, engine, host)
      | (.ok handle, host) => some (.created request handle.state, engine, host)
  | .created request state =>
    match engine.activate state.id with
    | .error cause => some (refuse cause, engine, host)
    | .ok engine =>
      let (call, host) := drive engine request.workflow state host
      some (call, engine, host)
  | .resuming request =>
    match engine.activate request.id with
    | .error cause => some (refuse cause, engine, host)
    | .ok engine => some (.loading request, engine, host)
  | .loading request =>
    match ExecutionStore.loadHeader host.store request.id with
    | .error e => some (refuse (.store e), engine.release request.id, host)
    | .ok none =>
      some (refuse (.executionNotFound request.id), engine.release request.id, host)
    | .ok (some header) => some (.loadingLog request header, engine, host)
  | .loadingLog request header =>
    match ExecutionStore.loadCheckpoints host.store request.id 0 with
    | .error e => some (refuse (.store e), engine.release request.id, host)
    | .ok log =>
      let state := ExecutionState.ofRecord (ExecutionStore.assemble header log)
      match prepareResume engine request state with
      | .error cause => some (refuse cause, engine.release request.id, host)
      | .ok (workflow, state) =>
        let (call, host) := drive engine workflow state host
        some (call, engine, host)
  | .driving scope run =>
    let run := { run with cancelled := run.cancelled || engine.isCancelled run.id }
    match run.result? with
    | some result => some (.ended (.ok (RunResult.ofRun run result)), engine.release run.id, host)
    | none =>
      (run.next? scope host).map fun (run, host) => (.driving scope run, engine, host)
  | .ended _ => none

/-- When something next happens in a call that has to wait. -/
def wakesAt? : Call → Option Nat
  | .driving _ run => run.wakesAt?
  | _ => none

end Call

namespace Engine

variable {σ : Type} [ExecutionStore σ]

/-- The stored record of an execution. -/
def getState (host : Host σ) (id : ExecutionId) : Except EngineError ExecutionRecord :=
  match ExecutionStore.load host.store id with
  | .error e => .error (.store e)
  | .ok none => .error (.executionNotFound id)
  | .ok (some record) => .ok record

/-- Headers of stored executions, newest first, of one workflow if one is given. -/
def listExecutions (host : Host σ) (workflowId : Option WorkflowId) :
    Except EngineError (List ExecutionHeader) :=
  (ExecutionStore.list host.store workflowId).mapError .store

end Engine

end WorkflowEngine
