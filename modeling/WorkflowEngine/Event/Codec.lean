import WorkflowEngine.Event.Basic
import WorkflowEngine.Execution.Codec

/-!
# Events as JSON

An event is an object whose kind is named by a tag beside its parts: `type` for events of an execution
and `event_type` for those of a node. The tag may stand anywhere; in the array form it comes first.
The parts are held back until the tag is known.
-/
namespace WorkflowEngine

/-- The tag of a tagged structure and its parts. -/
def Json.Parts.tagged (tag : String) : Json.Decode (Json × Json.Parts)
  | .object entries => do
    match ← (Json.Parts.named entries).find 0 [tag] with
    | some json => return (json, .named entries)
    | none => throw (.missing tag)
  | .array (first :: rest) => .ok (first, .listed rest)
  | .array [] => .error (.missing tag)
  | _ => .error (.wrongKind "a tagged structure")

/-- Refuse more listed parts than a structure has. -/
def Json.Parts.atMost (parts : Json.Parts) (arity : Nat) : Except DecodeError Json.Parts :=
  match parts with
  | .listed items => if items.length ≤ arity then .ok parts else .error .tooMany
  | .named _ => .ok parts

namespace NodeEvent

def toJson : NodeEvent → Json
  | .info message => .object [("event_type", .string "Info"), ("message", .string message)]
  | .warning message => .object [("event_type", .string "Warning"), ("message", .string message)]
  | .progress percent message => .object [
      ("event_type", .string "Progress"),
      ("percent", .number (.float percent)),
      ("message", .optional .string message)]
  | .data key value => .object [
      ("event_type", .string "Data"),
      ("key", .string key),
      ("value", value.toJson)]

/-- The names of the kinds, in the order of their numbers. -/
def kinds : List String := ["Info", "Warning", "Progress", "Data"]

/-- A kind by its name; inside another event, which was held back, also by its number. -/
def kindName (heldBack : Bool) : Json → Except DecodeError String
  | .string name => .ok name
  | .number (.integer i) =>
    match heldBack, kinds[i.toNat]? with
    | true, some name => if 0 ≤ i then .ok name else .error .outOfRange
    | _, _ => .error (.wrongKind "a name")
  | _ => .error (.wrongKind "a name")

def decode (heldBack : Bool) : Json.Decode NodeEvent := fun json => do
  let (tag, parts) ← Json.Parts.tagged "event_type" json
  match ← kindName heldBack tag with
  | "Info" =>
    let parts ← parts.atMost 1
    return .info (← parts.required 0 "message" Json.Decode.string)
  | "Warning" =>
    let parts ← parts.atMost 1
    return .warning (← parts.required 0 "message" Json.Decode.string)
  | "Progress" =>
    let parts ← parts.atMost 2
    return .progress (← parts.required 0 "percent" Json.Decode.number)
      (← parts.optionalNamed 1 "message" Json.Decode.string)
  | "Data" =>
    let parts ← parts.atMost 2
    return .data (← parts.required 0 "key" Json.Decode.string)
      (← parts.required 1 "value" fun json => .ok (Value.ofJson json))
  | name => throw (.unknownName name)

end NodeEvent

namespace ExecutionEvent

def toJson : ExecutionEvent → Json
  | .workflowStarted id workflowId resumed timestamp => .object [
      ("type", .string "WorkflowStarted"),
      ("execution_id", id.toJson),
      ("workflow_id", .string workflowId),
      ("resumed", .bool resumed),
      ("timestamp", timestamp.toJson)]
  | .workflowFinished id status durationMs error timestamp => .object [
      ("type", .string "WorkflowFinished"),
      ("execution_id", id.toJson),
      ("status", status.toJson),
      ("duration_ms", .nat durationMs),
      ("error", .optional .string error),
      ("timestamp", timestamp.toJson)]
  | .nodeStarted id nodeId nodeType timestamp => .object [
      ("type", .string "NodeStarted"),
      ("execution_id", id.toJson),
      ("node_id", .string nodeId),
      ("node_type", .string nodeType),
      ("timestamp", timestamp.toJson)]
  | .nodeCompleted id nodeId step durationMs timestamp => .object [
      ("type", .string "NodeCompleted"),
      ("execution_id", id.toJson),
      ("node_id", .string nodeId),
      ("step", .nat step),
      ("duration_ms", .nat durationMs),
      ("timestamp", timestamp.toJson)]
  | .nodePaused id nodeId step timestamp => .object [
      ("type", .string "NodePaused"),
      ("execution_id", id.toJson),
      ("node_id", .string nodeId),
      ("step", .nat step),
      ("timestamp", timestamp.toJson)]
  | .nodeFailed id nodeId error timestamp => .object [
      ("type", .string "NodeFailed"),
      ("execution_id", id.toJson),
      ("node_id", .string nodeId),
      ("error", .string error),
      ("timestamp", timestamp.toJson)]
  | .nodeEvent id nodeId event timestamp => .object [
      ("type", .string "NodeEvent"),
      ("execution_id", id.toJson),
      ("node_id", .string nodeId),
      ("event", event.toJson),
      ("timestamp", timestamp.toJson)]

def decode : Json.Decode ExecutionEvent := fun json => do
  let (tag, parts) ← Json.Parts.tagged "type" json
  match ← Json.Decode.string tag with
  | "WorkflowStarted" =>
    let parts ← parts.atMost 4
    return .workflowStarted
      (← parts.required 0 "execution_id" Uuid.decode)
      (← parts.required 1 "workflow_id" Json.Decode.string)
      (← parts.required 2 "resumed" Json.Decode.bool)
      (← parts.required 3 "timestamp" Timestamp.decode)
  | "WorkflowFinished" =>
    let parts ← parts.atMost 5
    return .workflowFinished
      (← parts.required 0 "execution_id" Uuid.decode)
      (← parts.required 1 "status" (ExecutionStatus.decode true))
      (← parts.required 2 "duration_ms" (Json.Decode.natBelow UInt64.size))
      (← parts.optionalNamed 3 "error" Json.Decode.string)
      (← parts.required 4 "timestamp" Timestamp.decode)
  | "NodeStarted" =>
    let parts ← parts.atMost 4
    return .nodeStarted
      (← parts.required 0 "execution_id" Uuid.decode)
      (← parts.required 1 "node_id" Json.Decode.string)
      (← parts.required 2 "node_type" Json.Decode.string)
      (← parts.required 3 "timestamp" Timestamp.decode)
  | "NodeCompleted" =>
    let parts ← parts.atMost 5
    return .nodeCompleted
      (← parts.required 0 "execution_id" Uuid.decode)
      (← parts.required 1 "node_id" Json.Decode.string)
      (← parts.required 2 "step" (Json.Decode.natBelow UInt32.size))
      (← parts.required 3 "duration_ms" (Json.Decode.natBelow UInt64.size))
      (← parts.required 4 "timestamp" Timestamp.decode)
  | "NodePaused" =>
    let parts ← parts.atMost 4
    return .nodePaused
      (← parts.required 0 "execution_id" Uuid.decode)
      (← parts.required 1 "node_id" Json.Decode.string)
      (← parts.required 2 "step" (Json.Decode.natBelow UInt32.size))
      (← parts.required 3 "timestamp" Timestamp.decode)
  | "NodeFailed" =>
    let parts ← parts.atMost 4
    return .nodeFailed
      (← parts.required 0 "execution_id" Uuid.decode)
      (← parts.required 1 "node_id" Json.Decode.string)
      (← parts.required 2 "error" Json.Decode.string)
      (← parts.required 3 "timestamp" Timestamp.decode)
  | "NodeEvent" =>
    let parts ← parts.atMost 4
    return .nodeEvent
      (← parts.required 0 "execution_id" Uuid.decode)
      (← parts.required 1 "node_id" Json.Decode.string)
      (← parts.required 2 "event" (NodeEvent.decode true))
      (← parts.required 3 "timestamp" Timestamp.decode)
  | name => throw (.unknownName name)

end ExecutionEvent

end WorkflowEngine
