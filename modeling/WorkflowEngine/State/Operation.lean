import WorkflowEngine.Host

/-!
# Operations on a handle

What can be done with the working copy of an execution. Some operations only change the copy; others
ask for a commit and are done when the store has answered. Reconciliation waits for a commit that is
still on its way, and then takes over what the store has and the copy has not.
-/
namespace WorkflowEngine

inductive StateOperation where
  | updateContext (update : Context)
  | setContext (context : Context)
  | incrementStep
  | setStatus (status : ExecutionStatus)
  | discard
  | save
  | checkpoint (nodeId : NodeId) (nodeName : String) (pending : List NodeId)
  | errorCheckpoint (nodeId : NodeId) (nodeName : String) (pending : List NodeId) (error : String)
  | markCompleted
  | markFailed (error : String)
  deriving Inhabited

namespace StateOperation

variable {σ : Type} [ExecutionStore σ]

/-- What is asked of the store, once the copy is changed. -/
inductive Demand where
  | nothing
  | commit (checkpoint : Option Checkpoint)

/-- Change the working copy, and tell what is to be asked of the store. An illegal change of status
changes nothing. -/
def prepare (operation : StateOperation) (handle : Handle) (host : Host σ) :
    Except EngineError (Demand × Handle) × Host σ :=
  let changed (state : ExecutionState) : Handle := { handle with state }
  match operation with
  | .updateContext update => (.ok (.nothing, changed (handle.state.updateContext update)), host)
  | .setContext context => (.ok (.nothing, changed (handle.state.setContext context)), host)
  | .incrementStep => (.ok (.nothing, changed handle.state.incrementStep), host)
  | .setStatus status =>
    ((handle.state.setStatus status).map fun state => (.nothing, changed state), host)
  | .discard => (.ok (.nothing, changed handle.state.discardUncommitted), host)
  | .save => (.ok (.commit none, handle), host)
  | .checkpoint nodeId nodeName pending =>
    let (entry, host) := handle.takeCheckpoint nodeId nodeName pending none host
    (.ok (.commit (some entry), handle), host)
  | .errorCheckpoint nodeId nodeName pending error =>
    let (entry, host) := handle.takeCheckpoint nodeId nodeName pending (some error) host
    ((handle.state.fail error).map fun state => (.commit (some entry), changed state), host)
  | .markCompleted => (handle.state.complete.map fun state => (.commit none, changed state), host)
  | .markFailed error =>
    ((handle.state.fail error).map fun state => (.commit none, changed state), host)

end StateOperation

namespace Handle

variable {σ : Type} [ExecutionStore σ]

/-- The operation up to the point where it waits for the store. -/
def beginOperation (handle : Handle) (operation : StateOperation) (host : Host σ) :
    Except EngineError Unit × Handle × Host σ :=
  match operation.prepare handle host with
  | (.error cause, host) => (.error cause, handle, host)
  | (.ok (.nothing, handle), host) => (.ok (), handle, host)
  | (.ok (.commit checkpoint, handle), host) =>
    let (handle, host) := handle.persist checkpoint host
    (.ok (), handle, host)

/-- Let the commit on its way take effect and wait until its outcome is known. -/
def await (handle : Handle) (host : Host σ) : Handle × Host σ :=
  match handle.flight with
  | none => (handle, host)
  | some flight =>
    let host := host.waitUntil flight.landsAt
    let (handle, store) := handle.land host.store
    (handle, { host with store }.waitUntil flight.answersAt)

/-- Perform an operation to its end. -/
def perform (handle : Handle) (operation : StateOperation) (host : Host σ) :
    Except EngineError Unit × Handle × Host σ :=
  match handle.beginOperation operation host with
  | (.error cause, handle, host) => (.error cause, handle, host)
  | (.ok (), handle, host) =>
    let (handle, host) := handle.await host
    match handle.answered? host.now with
    | none => (.ok (), handle, host)
    | some (commit, outcome) =>
      let (result, handle) := handle.settle commit outcome
      (result, handle, host)

/-- The stored header, if it is ahead of the working copy. -/
def ahead? (handle : Handle) (host : Host σ) : Except EngineError (Option ExecutionHeader) :=
  match ExecutionStore.loadHeader host.store handle.state.id with
  | .error e => .error (.store e)
  | .ok none => .error (.executionNotFound handle.state.id)
  | .ok (some stored) => .ok (if handle.state.isBehind stored then some stored else none)

/-- Take over a stored header, reading the part of the log that the working copy has not. -/
def takeOver (handle : Handle) (stored : ExecutionHeader) (host : Host σ) :
    Except EngineError Handle :=
  match ExecutionStore.loadCheckpoints host.store handle.state.id
      handle.state.header.checkpointCount with
  | .error e => .error (.store e)
  | .ok tail => .ok (handle.mapState fun state => state.adopt stored tail)

/-- Take over what is stored, if it is ahead of the working copy. -/
def catchUp (handle : Handle) (host : Host σ) : Except EngineError (Bool × Handle) := do
  match ← handle.ahead? host with
  | none => return (false, handle)
  | some stored => return (true, ← handle.takeOver stored host)

/-- Wait for a commit that is still on its way, then take over what is stored, if it is ahead. -/
def reconcile (handle : Handle) (host : Host σ) : Except EngineError Bool × Handle × Host σ :=
  let (handle, host) := handle.await host
  let handle := handle.clear
  match handle.catchUp host with
  | .error cause => (.error cause, handle, host)
  | .ok (adopted, handle) => (.ok adopted, handle, host)

/-- A handle on a fresh execution, which is put into the store. -/
def create (workflowId : WorkflowId) (userId : String) (context : Context) (totalSteps : Nat)
    (host : Host σ) : Except EngineError Handle × Host σ :=
  let (now, host) := host.stamp
  let (id, host) := host.drawId
  let header := ExecutionState.newHeader id workflowId userId context totalSteps now
  let (result, store) := ExecutionStore.insert host.store header
  let host := { host with store }
  match result with
  | .ok () => (.ok { state := .ofRecord ⟨header, []⟩ }, host)
  | .error e => (.error (.store e), host)

/-- A handle on a stored execution. -/
def resume (id : ExecutionId) (host : Host σ) : Except EngineError Handle :=
  match ExecutionStore.load host.store id with
  | .error e => .error (.store e)
  | .ok none => .error (.executionNotFound id)
  | .ok (some record) => .ok { state := .ofRecord record }

end Handle

end WorkflowEngine
