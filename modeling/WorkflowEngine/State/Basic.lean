import WorkflowEngine.Store.Basic
import WorkflowEngine.Supply

/-!
# The state of one execution

The working copy of an execution's record. Context, step and status change in memory; every checkpoint
and every final status is made durable by one commit that replaces the version last read. What a commit
holds is fixed when it is asked for, and the working copy takes it over only when it has succeeded.
-/
namespace WorkflowEngine

structure ExecutionState where
  header : ExecutionHeader
  checkpoints : List Checkpoint
  /-- Context and step as of the last durable write. -/
  durableContext : Context
  durableStep : Nat
  deriving Inhabited

namespace ExecutionState

/-- The header of a fresh execution. -/
def newHeader (id : ExecutionId) (workflowId : WorkflowId) (userId : String) (context : Context)
    (totalSteps : Nat) (now : Timestamp) : ExecutionHeader where
  id := id
  workflowId := workflowId
  userId := userId
  status := .pending
  context := context
  currentStep := 0
  totalSteps := totalSteps
  error := none
  version := 0
  checkpointCount := 0
  createdAt := now
  updatedAt := now

/-- The working copy of a stored record. -/
def ofRecord (record : ExecutionRecord) : ExecutionState where
  header := record.header
  checkpoints := record.checkpoints
  durableContext := record.header.context
  durableStep := record.header.currentStep

def id (state : ExecutionState) : ExecutionId := state.header.id

def status (state : ExecutionState) : ExecutionStatus := state.header.status

def context (state : ExecutionState) : Context := state.header.context

/-- The record as it stands in memory. -/
def snapshot (state : ExecutionState) : ExecutionRecord :=
  { header := state.header, checkpoints := state.checkpoints }

def setContext (state : ExecutionState) (context : Context) : ExecutionState :=
  { state with header := { state.header with context } }

/-- Set every key of `update` in the live context. -/
def updateContext (state : ExecutionState) (update : Context) : ExecutionState :=
  state.setContext (Fields.merge state.context update)

def incrementStep (state : ExecutionState) : ExecutionState :=
  { state with header := { state.header with currentStep := state.header.currentStep + 1 } }

/-- Change the status in memory, as the lifecycle allows. -/
def setStatus (state : ExecutionState) (status : ExecutionStatus) :
    Except EngineError ExecutionState :=
  if state.status.canBecome status then .ok { state with header := { state.header with status } }
  else .error (.invalidTransition state.status status)

def setError (state : ExecutionState) (error : Option String) : ExecutionState :=
  { state with header := { state.header with error } }

def canResume (state : ExecutionState) : Bool :=
  match state.status with
  | .paused => true
  | .failed => !state.checkpoints.isEmpty
  | _ => false

def resumePoint? (state : ExecutionState) : Option ResumePoint :=
  state.checkpoints.getLast?.map fun c => ⟨c.nodeId, c.stepNumber, c.isError, c.pending⟩

/-- Nodes that have a checkpoint, failed ones included. None of them is dispatched again. -/
def checkpointedNodes (state : ExecutionState) : List NodeId := state.checkpoints.map (·.nodeId)

/-- Drop changes of context and step that were never made durable. -/
def discardUncommitted (state : ExecutionState) : ExecutionState :=
  { state with
    header := { state.header with
      context := state.durableContext
      currentStep := state.durableStep } }

/-- The next checkpoint of the log, taken of the state as it is. -/
def newCheckpoint (state : ExecutionState) (id : Uuid) (now : Timestamp) (nodeId : NodeId)
    (nodeName : String) (pending : List NodeId) (error : Option String) : Checkpoint where
  id := id
  sequence := state.header.checkpointCount
  nodeId := nodeId
  nodeName := nodeName
  stepNumber := state.header.currentStep
  context := state.context
  pending := pending
  timestamp := now
  error := error

/-- The commit that makes the state durable, with a checkpoint if there is one. -/
def commit (state : ExecutionState) (checkpoint : Option Checkpoint) (now : Timestamp) : Commit where
  header := { state.header with
    version := state.header.version + 1
    checkpointCount := state.header.checkpointCount + checkpoint.toList.length
    updatedAt := now }
  appended := checkpoint.toList
  expected := state.header.version

/-- Take over a commit that succeeded. -/
def committed (state : ExecutionState) (commit : Commit) : ExecutionState where
  header := commit.header
  checkpoints := state.checkpoints ++ commit.appended
  durableContext := commit.header.context
  durableStep := commit.header.currentStep

/-- Is a stored header ahead of the working copy? -/
def isBehind (state : ExecutionState) (stored : ExecutionHeader) : Bool :=
  state.header.version < stored.version

/-- Take over a stored header and the part of the log that it accounts for beyond the working copy;
`tail` is the log from the working copy's count on. -/
def adopt (state : ExecutionState) (stored : ExecutionHeader) (tail : List Checkpoint) :
    ExecutionState where
  header := stored
  checkpoints := state.checkpoints ++
    tail.take (stored.checkpointCount - state.header.checkpointCount)
  durableContext := stored.context
  durableStep := stored.currentStep

/-- What is changed in memory before a completion is made durable. -/
def complete (state : ExecutionState) : Except EngineError ExecutionState := do
  return (← state.setStatus .completed).setError none

/-- What is changed in memory before a failure is made durable. -/
def fail (state : ExecutionState) (error : String) : Except EngineError ExecutionState := do
  return (← state.setStatus .failed).setError (some error)

end ExecutionState

end WorkflowEngine
