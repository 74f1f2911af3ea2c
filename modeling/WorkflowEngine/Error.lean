import WorkflowEngine.Execution.Record
import WorkflowEngine.Json.Decode

/-!
# Errors

Causes of failure at each level: a node, a definition, the store, and a whole call. Each level has its
wording in one function and says whether the caller may reasonably try again.
-/
namespace WorkflowEngine

/-- Why a node did not succeed. -/
inductive NodeError where
  | missingInput (name : String)
  | invalidInputType (field expected actual : String)
  | configuration (text : String)
  | executionFailed (text : String)
  | transient (text : String)
  | timeout (milliseconds : Nat)
  | cancelled
  deriving DecidableEq, Inhabited

namespace NodeError

def message : NodeError → String
  | .missingInput name => "Missing required input: " ++ name
  | .invalidInputType field expected actual =>
    "Invalid input type for '" ++ field ++ "': expected " ++ expected ++ ", got " ++ actual
  | .configuration text => "Configuration error: " ++ text
  | .executionFailed text => "Execution failed: " ++ text
  | .transient text => "Transient failure: " ++ text
  | .timeout milliseconds => "Timeout after " ++ toString milliseconds ++ "ms"
  | .cancelled => "Cancelled"

def isRetryable : NodeError → Bool
  | .transient _ => true
  | .timeout _ => true
  | _ => false

end NodeError

/-- Why a definition is refused. -/
inductive WorkflowError where
  | notFound (id : WorkflowId)
  | invalid (reason : String)
  | cyclicDependency (nodes : List NodeId)
  | duplicateNode (id : NodeId)
  | unknownNodeType (nodeType : String)
  | invalidConnection (text : String)
  deriving DecidableEq, Inhabited

def WorkflowError.message : WorkflowError → String
  | .notFound id => "Workflow not found: " ++ id
  | .invalid reason => "Invalid workflow: " ++ reason
  | .cyclicDependency nodes =>
    "Cyclic dependency detected between nodes: " ++ ", ".intercalate nodes
  | .duplicateNode id => "Duplicate node id: " ++ id
  | .unknownNodeType nodeType => "No executor registered for node type '" ++ nodeType ++ "'"
  | .invalidConnection text => "Invalid connection: " ++ text

/-- Why the store did not answer. -/
inductive StoreError where
  | alreadyExists (id : ExecutionId)
  | notFound (id : ExecutionId)
  /-- The stored version is not the one the writer read. -/
  | conflict (id : ExecutionId) (expected found : Nat)
  | io (cause : String)
  | corrupt (cause : DecodeError)
  deriving DecidableEq, Inhabited

namespace StoreError

def message : StoreError → String
  | .alreadyExists id => "Execution " ++ id.toText ++ " already exists"
  | .notFound id => "Execution " ++ id.toText ++ " not found in store"
  | .conflict id expected found =>
    "Stale write for execution " ++ id.toText ++ ": expected version " ++ toString expected ++
      ", found " ++ toString found
  | .io cause => "Storage IO error: " ++ cause
  | .corrupt cause => "Corrupt record: " ++ cause.message

def isConflict : StoreError → Bool
  | .conflict _ _ _ => true
  | _ => false

end StoreError

/-- A failure at a node, always preceded by an error checkpoint. -/
structure NodeFailure where
  workflowId : WorkflowId
  nodeId : NodeId
  message : String
  retryable : Bool
  deriving DecidableEq, Inhabited

/-- Why a call did not succeed. -/
inductive EngineError where
  | node (error : NodeError)
  | workflow (error : WorkflowError)
  | execution (failure : NodeFailure)
  | store (error : StoreError)
  | timeout (milliseconds : Nat)
  | cancelled (id : ExecutionId)
  | executionNotFound (id : ExecutionId)
  | executionBusy (id : ExecutionId)
  | notResumable (id : ExecutionId) (status : ExecutionStatus)
  | invalidTransition (source target : ExecutionStatus)
  | io (cause : String)
  | serialization (cause : String)
  deriving DecidableEq, Inhabited

namespace EngineError

def message : EngineError → String
  | .node error => "Node error: " ++ error.message
  | .workflow error => "Workflow error: " ++ error.message
  | .execution failure =>
    "Workflow " ++ failure.workflowId ++ " failed at node " ++ failure.nodeId ++ ": " ++
      failure.message
  | .store error => "Store error: " ++ error.message
  | .timeout milliseconds => "Workflow timed out after " ++ toString milliseconds ++ "ms"
  | .cancelled id => "Execution " ++ id.toText ++ " was cancelled"
  | .executionNotFound id => "Execution not found: " ++ id.toText
  | .executionBusy id => "Execution " ++ id.toText ++ " is already running"
  | .notResumable id status =>
    "Execution " ++ id.toText ++ " cannot be resumed from status " ++ status.name
  | .invalidTransition source target =>
    "Invalid status transition: " ++ source.name ++ " -> " ++ target.name
  | .io cause => "IO error: " ++ cause
  | .serialization cause => "Serialization error: " ++ cause

/-- May the caller reasonably repeat the whole call? -/
def isRetryable : EngineError → Bool
  | .node error => error.isRetryable
  | .execution failure => failure.retryable
  | .store error => error.isConflict
  | .timeout _ => true
  | .executionBusy _ => true
  | _ => false

end EngineError

end WorkflowEngine
