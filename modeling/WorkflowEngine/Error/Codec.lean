import WorkflowEngine.Error
import WorkflowEngine.Execution.Codec
import WorkflowEngine.Json.Loose

/-!
# Errors as JSON

An error is told by its kind, its message and, where that is known, whether a repetition may help. The
kind of an error that wraps another is that of the inner one; the message is the outer one's.
-/
namespace WorkflowEngine

namespace NodeError

def kind : NodeError → String
  | .missingInput _ => "Node.MissingInput"
  | .invalidInputType .. => "Node.InvalidInputType"
  | .configuration _ => "Node.Configuration"
  | .executionFailed _ => "Node.ExecutionFailed"
  | .transient _ => "Node.Transient"
  | .timeout _ => "Node.Timeout"
  | .cancelled => "Node.Cancelled"

def entries (e : NodeError) : List (String × Json) :=
  [("error", .string e.kind), ("message", .string e.message), ("retryable", .bool e.isRetryable)]

end NodeError

namespace WorkflowError

def kind : WorkflowError → String
  | .notFound _ => "Workflow.NotFound"
  | .invalid _ => "Workflow.Invalid"
  | .cyclicDependency _ => "Workflow.CyclicDependency"
  | .duplicateNode _ => "Workflow.DuplicateNode"
  | .unknownNodeType _ => "Workflow.UnknownNodeType"
  | .invalidConnection _ => "Workflow.InvalidConnection"

def entries (e : WorkflowError) : List (String × Json) :=
  [("error", .string e.kind), ("message", .string e.message)]

end WorkflowError

namespace StoreError

def kind : StoreError → String
  | .alreadyExists _ => "Store.AlreadyExists"
  | .notFound _ => "Store.NotFound"
  | .conflict .. => "Store.Conflict"
  | .io _ => "Store.Io"
  | .corrupt _ => "Store.Corrupt"

def entries (e : StoreError) : List (String × Json) :=
  [("error", .string e.kind), ("message", .string e.message)]

end StoreError

namespace EngineError

def kind : EngineError → String
  | .node e => e.kind
  | .workflow e => e.kind
  | .store e => e.kind
  | .execution _ => "Execution"
  | .timeout _ => "Timeout"
  | .cancelled _ => "Cancelled"
  | .executionNotFound _ => "ExecutionNotFound"
  | .executionBusy _ => "ExecutionBusy"
  | .notResumable .. => "NotResumable"
  | .invalidTransition .. => "InvalidTransition"
  | .io _ => "Io"
  | .serialization _ => "Serialization"

def entries (e : EngineError) : List (String × Json) :=
  [("error", .string e.kind), ("message", .string e.message), ("retryable", .bool e.isRetryable)]

/-- An error by its kind and what that kind holds. -/
def decode : Json.Decode EngineError := fun json => do
  let text := json.textAt "text"
  let ms := json.natAt "ms"
  let id ←
    match json.textAt? "id" with
    | some id => Uuid.decode (.string id)
    | none => pure Uuid.nil
  let status (name : String) := ExecutionStatus.decode false (json.part name)
  match json.textAt "kind" with
  | "Node.MissingInput" => return .node (.missingInput text)
  | "Node.InvalidInputType" =>
    return .node (.invalidInputType text (json.textAt "expected") (json.textAt "actual"))
  | "Node.Configuration" => return .node (.configuration text)
  | "Node.ExecutionFailed" => return .node (.executionFailed text)
  | "Node.Transient" => return .node (.transient text)
  | "Node.Timeout" => return .node (.timeout ms)
  | "Node.Cancelled" => return .node .cancelled
  | "Workflow.NotFound" => return .workflow (.notFound text)
  | "Workflow.Invalid" => return .workflow (.invalid text)
  | "Workflow.CyclicDependency" => return .workflow (.cyclicDependency (json.textsAt "nodes"))
  | "Workflow.DuplicateNode" => return .workflow (.duplicateNode text)
  | "Workflow.UnknownNodeType" => return .workflow (.unknownNodeType text)
  | "Workflow.InvalidConnection" => return .workflow (.invalidConnection text)
  | "Execution" =>
    return .execution
      ⟨json.textAt "workflow_id", json.textAt "node_id", text, json.flagAt "retryable"⟩
  | "Store.AlreadyExists" => return .store (.alreadyExists id)
  | "Store.NotFound" => return .store (.notFound id)
  | "Store.Conflict" =>
    return .store (.conflict id (json.natAt "expected") (json.natAt "found"))
  | "Store.Io" => return .store (.io text)
  | "Store.Corrupt" => return .store (.corrupt (.malformed text))
  | "Timeout" => return .timeout ms
  | "Cancelled" => return .cancelled id
  | "ExecutionNotFound" => return .executionNotFound id
  | "ExecutionBusy" => return .executionBusy id
  | "NotResumable" => return .notResumable id (← status "status")
  | "InvalidTransition" => return .invalidTransition (← status "from") (← status "to")
  | "Io" => return .io text
  | "Serialization" => return .serialization text
  | name => throw (.unknownName name)

end EngineError

end WorkflowEngine
