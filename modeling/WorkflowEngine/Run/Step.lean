import WorkflowEngine.Run.Basic
import WorkflowEngine.State.Operation

/-!
# Steps of a run

`Run.step?` is the next thing a run does by itself, if it need not wait. A node's result is announced
only when its commit has succeeded. A run that is cancelled or meets its deadline drops what it was
doing, finds out what the store made of a commit on its way, and is then recorded as failed; so is one
that cannot go on, unless its failure is recorded already or another writer has taken over.
-/
namespace WorkflowEngine

namespace Run

variable {σ : Type}

/-- The run is over. -/
def finish (run : Run) (result : Except EngineError ExecutionStatus) (host : Host σ) :
    Run × Host σ :=
  let error :=
    match result with
    | .ok _ => none
    | .error cause => some cause.message
  (run.setStage (.finished result),
    host.announce (.workflowFinished run.id run.state.status (host.now - run.startedAt) error))

variable [ExecutionStore σ]

/-- Ask for a commit and wait for it. -/
def commit (run : Run) (checkpoint : Option Checkpoint) (purpose : Purpose) (host : Host σ) :
    Run × Host σ :=
  let (handle, host) := run.handle.persist checkpoint host
  ({ run with handle, stage := .committing purpose }, host)

/-- Record that a node failed, and what a resumed run continues with. -/
def failNode (run : Run) (scope : Scope) (nodeId : NodeId) (nodeName : String)
    (pending : List NodeId) (message : String) (retryable : Bool) (host : Host σ) : Run × Host σ :=
  let (checkpoint, host) := run.handle.takeCheckpoint nodeId nodeName pending (some message) host
  match run.state.fail message with
  | .error cause => (run.setStage (.aborting cause), host)
  | .ok state =>
    (run.withState state).commit (some checkpoint)
      (.failure ⟨scope.workflow.id, nodeId, message, retryable⟩) host

/-- A known node failed: its successors follow the rest of the queue. -/
def failKnown (run : Run) (scope : Scope) (node : NodeSpec) (pending : List NodeId)
    (message : String) (retryable : Bool) (host : Host σ) : Run × Host σ :=
  run.failNode scope node.id node.displayName (pending ++ scope.workflow.successors node.id none)
    message retryable host

/-- What a node is called with. -/
def nodeContext (run : Run) (scope : Scope) (node : NodeSpec) (earlierCalls : Nat) : NodeContext where
  nodeId := node.id
  nodeName := node.displayName
  executionId := run.id
  workflowId := scope.workflow.id
  userId := run.state.header.userId
  config := node.config
  context := run.state.context
  tools := scope.tools
  cancelled := run.cancelled
  earlierCalls := earlierCalls

/-- Call a node. -/
def call (run : Run) (scope : Scope) (executor : Executor) (node : NodeSpec)
    (pending : List NodeId) (host : Host σ) : Run × Host σ :=
  let host := host.announce (.nodeStarted run.id node.id node.nodeType)
  let (earlier, host) := host.countCall node.nodeType
  (run.setStage (.executing
    { node, pending
      rest := executor.execute (run.nodeContext scope node earlier)
      startedAt := host.now
      resumesAt := host.now
      limit := (scope.config.nodeTimeoutFor node).map fun ms => (ms, host.now + ms) }), host)

/-- Look at the next node of the queue. -/
def dispatch (run : Run) (scope : Scope) (host : Host σ) : Run × Host σ :=
  match run.queue with
  | [] =>
    match run.state.complete with
    | .error cause => (run.setStage (.aborting cause), host)
    | .ok state => (run.withState state).commit none .conclusion host
  | nodeId :: pending =>
    let run := { run with queue := pending }
    if nodeId ∈ run.dispatched then (run, host)
    else
      match scope.workflow.node? nodeId with
      | none =>
        run.failNode scope nodeId nodeId pending ("Node " ++ nodeId ++ " not found in workflow")
          false host
      | some node =>
        if scope.isTrigger node then (run, host)
        else
          match scope.registry.get? node.nodeType with
          | none =>
            run.failKnown scope node pending
              (WorkflowError.unknownNodeType node.nodeType).message false host
          | some executor => run.call scope executor node pending host

/-- The nodes that follow an outcome. Only a branch node heeds a selected output. -/
def followed (scope : Scope) (node : NodeSpec) (outcome : NodeOutcome) : List NodeId :=
  scope.workflow.successors node.id
    (if scope.workflow.isBranch node.id then outcome.selection else none)

/-- Record what a node answered. -/
def record (run : Run) (scope : Scope) (call : NodeCall) (result : NodeResult) (host : Host σ) :
    Run × Host σ :=
  match result with
  | .error error =>
    run.failKnown scope call.node call.pending error.message error.isRetryable host
  | .ok outcome =>
    let node := call.node
    let run := { run with dispatched := node.id :: run.dispatched }
    let run := run.withState (run.state.setContext outcome.context).incrementStep
    let successors := followed scope node outcome
    let continuation := call.pending ++ successors
    if outcome.isPause then
      match run.state.setStatus .paused with
      | .error cause => (run.setStage (.aborting cause), host)
      | .ok state =>
        let run := run.withState state
        let (checkpoint, host) :=
          run.handle.takeCheckpoint node.id node.displayName continuation none host
        run.commit (some checkpoint) (.pause node.id) host
    else
      let (checkpoint, host) :=
        run.handle.takeCheckpoint node.id node.displayName continuation none host
      run.commit (some checkpoint) (.completion node.id successors (host.now - call.startedAt)) host

/-- Has the node deadline passed? -/
def expired? (call : NodeCall) (host : Host σ) : Option NodeError :=
  match call.limit with
  | some (ms, time) => if time ≤ host.now then some (.timeout ms) else none
  | none => none

/-- Let a call go on. One that can answer at its deadline does. -/
def goOn? (run : Run) (scope : Scope) (call : NodeCall) (host : Host σ) : Option (Run × Host σ) :=
  let expire := (expired? call host).map fun error => run.record scope call (.error error) host
  if host.now < call.resumesAt then expire
  else
    match call.rest with
    | .answer result => some (run.record scope call result host)
    | .emit event rest =>
      some (run.setStage (.executing { call with rest }),
        host.announce (.nodeEvent run.id call.node.id event))
    | .sleep ms rest =>
      some (run.setStage (.executing { call with rest, resumesAt := host.now + ms }), host)
    | .hang attentive =>
      if attentive && run.attentive = 0 then some ({ run with attentive := 1 }, host) else expire

/-- What follows a commit that succeeded. -/
def proceed (run : Run) (purpose : Purpose) (host : Host σ) : Run × Host σ :=
  match purpose with
  | .entry => (run.setStage .dispatching, host)
  | .completion nodeId successors durationMs =>
    ({ run with queue := run.queue ++ successors, stage := .dispatching },
      host.announce (.nodeCompleted run.id nodeId run.state.header.currentStep durationMs))
  | .pause nodeId =>
    run.finish (.ok .paused)
      (host.announce (.nodePaused run.id nodeId run.state.header.currentStep))
  | .failure failure =>
    (run.setStage (.aborting (.execution failure)),
      host.announce (.nodeFailed run.id failure.nodeId failure.message))
  | .conclusion => run.finish (.ok .completed) host
  | .abort cause => run.finish (.error cause) host

/-- What follows a commit that failed: the run is given up, if it is not already. -/
def giveUp (run : Run) (purpose : Purpose) (error : EngineError) (host : Host σ) : Run × Host σ :=
  match purpose with
  | .abort cause => run.finish (.error cause) host
  | _ => (run.setStage (.aborting error), host)

/-- Take over the outcome of the commit the run waits for. -/
def settle? (run : Run) (purpose : Purpose) (host : Host σ) : Option (Run × Host σ) := do
  let (commit, outcome) ← run.handle.answered? host.now
  let (result, handle) := run.handle.settle commit outcome
  let run := { run with handle }
  match result with
  | .ok () => some (run.proceed purpose host)
  | .error error => some (run.giveUp purpose error host)

/-- Find out what the store made of the commit that was on its way. -/
def compare (run : Run) (cause : EngineError) (host : Host σ) : Run :=
  match run.handle.ahead? host with
  | .ok (some stored) => run.setStage (.catchingUp cause stored)
  | _ => run.setStage (.aborting cause)

/-- Take over a stored header that is ahead. -/
def catchUp (run : Run) (cause : EngineError) (stored : ExecutionHeader) (host : Host σ) : Run :=
  match run.handle.takeOver stored host with
  | .ok handle => { run with handle, stage := .aborting cause }
  | .error _ => run.setStage (.aborting cause)

/-- Is there nothing to record about a failure, because it is recorded or the record has another
writer? -/
def isRecorded : EngineError → Bool
  | .execution _ => true
  | .store (.conflict ..) => true
  | _ => false

/-- Record a run that is given up as failed, as far as its lifecycle allows. -/
def abort (run : Run) (cause : EngineError) (host : Host σ) : Run × Host σ :=
  if isRecorded cause then run.finish (.error cause) host
  else
    match run.state.fail cause.message with
    | .error _ => run.finish (.error cause) host
    | .ok state => (run.withState state).commit none (.abort cause) host

/-- The next thing a run does by itself; nothing, if it has to wait or is over. -/
def step? (run : Run) (scope : Scope) (host : Host σ) : Option (Run × Host σ) :=
  match run.stage with
  | .entering =>
    match run.state.setStatus .running with
    | .error cause => some (run.setStage (.aborting cause), host)
    | .ok state => some ((run.withState state).commit none .entry host)
  | .dispatching => some (run.dispatch scope host)
  | .executing call => run.goOn? scope call host
  | .committing purpose => run.settle? purpose host
  | .settling cause =>
    if run.handle.isBusy host.now then none
    else some ({ run with handle := run.handle.clear }.compare cause host, host)
  | .catchingUp cause stored => some (run.catchUp cause stored host, host)
  | .aborting cause => some (run.abort cause host)
  | .finished _ => none

/-- Drop what the run is doing. -/
def interrupt (run : Run) (cause : EngineError) (host : Host σ) : Run × Host σ :=
  ({ (run.withState run.state.discardUncommitted) with
      stage := .settling cause
      cancelled := true
      attentive := 0 },
    host.notice run.attentive)

/-- Why a run is to be interrupted now. A cancellation counts before the deadline. -/
def interruption? (run : Run) (host : Host σ) : Option EngineError :=
  if !run.isInterruptible then none
  else if run.cancelled then some (.cancelled run.id)
  else if run.deadlineAt ≤ host.now then some (.timeout run.deadlineMs)
  else none

/-- Let the commit on its way take effect, if its time has come. -/
def land? (run : Run) (host : Host σ) : Option (Run × Host σ) :=
  (run.handle.land? host).map fun (handle, host) => ({ run with handle }, host)

/-- The next thing that happens in a run at this moment: an interruption, a commit that takes effect,
or a step of the run. -/
def next? (run : Run) (scope : Scope) (host : Host σ) : Option (Run × Host σ) :=
  match run.interruption? host with
  | some cause => some (run.interrupt cause host)
  | none => run.land? host <|> run.step? scope host

/-- When something next happens in a run that has to wait. -/
def wakesAt? (run : Run) : Option Nat :=
  let own :=
    match run.stage with
    | .executing call =>
      let awakes := match call.rest with
        | .hang _ => []
        | _ => [call.resumesAt]
      awakes ++ (call.limit.map (·.2)).toList
    | _ => []
  let deadline := if run.isInterruptible then [run.deadlineAt] else []
  (own ++ deadline ++ run.handle.wakesAt?.toList).min?

end Run

end WorkflowEngine
