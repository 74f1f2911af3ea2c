import WorkflowEngine.Execution.Record

/-!
# Events

What an engine announces while it works: the start and end of a run, the start and end of each node,
and what nodes have to say themselves.
-/
namespace WorkflowEngine

/-- What a node announces while it executes. -/
inductive NodeEvent where
  | info (message : String)
  | warning (message : String)
  | progress (percent : Binary64) (message : Option String)
  /-- An intermediate value. -/
  | data (key : String) (value : Value)
  deriving Inhabited

inductive ExecutionEvent where
  | workflowStarted (id : ExecutionId) (workflowId : WorkflowId) (resumed : Bool)
      (timestamp : Timestamp)
  | workflowFinished (id : ExecutionId) (status : ExecutionStatus) (durationMs : Nat)
      (error : Option String) (timestamp : Timestamp)
  | nodeStarted (id : ExecutionId) (nodeId : NodeId) (nodeType : String) (timestamp : Timestamp)
  | nodeCompleted (id : ExecutionId) (nodeId : NodeId) (step : Nat) (durationMs : Nat)
      (timestamp : Timestamp)
  | nodePaused (id : ExecutionId) (nodeId : NodeId) (step : Nat) (timestamp : Timestamp)
  | nodeFailed (id : ExecutionId) (nodeId : NodeId) (error : String) (timestamp : Timestamp)
  | nodeEvent (id : ExecutionId) (nodeId : NodeId) (event : NodeEvent) (timestamp : Timestamp)
  deriving Inhabited

namespace ExecutionEvent

def executionId : ExecutionEvent → ExecutionId
  | workflowStarted id .. => id
  | workflowFinished id .. => id
  | nodeStarted id .. => id
  | nodeCompleted id .. => id
  | nodePaused id .. => id
  | nodeFailed id .. => id
  | nodeEvent id .. => id

end ExecutionEvent

end WorkflowEngine
