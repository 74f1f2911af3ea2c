import WorkflowEngine.Execution.Status
import WorkflowEngine.Timestamp
import WorkflowEngine.Uuid
import WorkflowEngine.Value.Basic

/-!
# Execution records

What is kept of an execution: a header that every durable write replaces, and a log of checkpoints that
only grows. A checkpoint is taken after a node succeeded or failed and carries the continuation: the
nodes a resumed run dispatches next.
-/
namespace WorkflowEngine

abbrev NodeId := String

abbrev WorkflowId := String

abbrev ExecutionId := Uuid

structure Checkpoint where
  id : Uuid
  /-- Position in the log, starting at 0. -/
  sequence : Nat
  nodeId : NodeId
  nodeName : String
  stepNumber : Nat
  context : Context
  /-- The continuation queue as of this checkpoint. -/
  pending : List NodeId
  timestamp : Timestamp
  error : Option String
  deriving Inhabited

namespace Checkpoint

def isError (checkpoint : Checkpoint) : Bool := checkpoint.error.isSome

end Checkpoint

/-- The part of a record without its checkpoints. -/
structure ExecutionHeader where
  id : ExecutionId
  workflowId : WorkflowId
  userId : String
  status : ExecutionStatus
  context : Context
  currentStep : Nat
  totalSteps : Nat
  error : Option String
  /-- Raised by every durable write. -/
  version : Nat
  /-- Number of entries of the log this header accounts for. -/
  checkpointCount : Nat
  createdAt : Timestamp
  updatedAt : Timestamp
  deriving Inhabited

structure ExecutionRecord where
  header : ExecutionHeader
  checkpoints : List Checkpoint
  deriving Inhabited

namespace ExecutionRecord

def id (record : ExecutionRecord) : ExecutionId := record.header.id

def status (record : ExecutionRecord) : ExecutionStatus := record.header.status

def lastCheckpoint? (record : ExecutionRecord) : Option Checkpoint := record.checkpoints.getLast?

end ExecutionRecord

/-- Where a resumed run picks up. -/
structure ResumePoint where
  nodeId : NodeId
  stepNumber : Nat
  /-- The checkpoint recorded a failure. -/
  failed : Bool
  pending : List NodeId
  deriving DecidableEq, Inhabited

end WorkflowEngine
