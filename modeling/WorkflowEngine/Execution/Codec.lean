import WorkflowEngine.Execution.Record
import WorkflowEngine.Value.Json

/-!
# Records as JSON

Headers, checkpoints and records are written as objects in camel case. A record is its header with the
checkpoints beside the header's fields. An absent error of a checkpoint is left out, one of a header is
written as `null`. On reading, a header's error, a checkpoint's error and a checkpoint's continuation
may be left out.
-/
namespace WorkflowEngine

namespace Context

def decode : Json.Decode Context := fun json =>
  match ofJson? json with
  | some context => .ok context
  | none => .error (.wrongKind "an object")

end Context

namespace Checkpoint

def toJson (c : Checkpoint) : Json :=
  .object ([
    ("id", c.id.toJson),
    ("sequence", .nat c.sequence),
    ("nodeId", .string c.nodeId),
    ("nodeName", .string c.nodeName),
    ("stepNumber", .nat c.stepNumber),
    ("context", Context.toJson c.context),
    ("pending", .strings c.pending),
    ("timestamp", c.timestamp.toJson)] ++
    match c.error with
    | some error => [("error", .string error)]
    | none => [])

def decode : Json.Decode Checkpoint := fun json => do
  let parts ← Json.Parts.of 9 json
  return {
    id := ← parts.required 0 "id" Uuid.decode
    sequence := ← parts.required 1 "sequence" (Json.Decode.natBelow UInt64.size)
    nodeId := ← parts.required 2 "nodeId" Json.Decode.string
    nodeName := ← parts.required 3 "nodeName" Json.Decode.string
    stepNumber := ← parts.required 4 "stepNumber" (Json.Decode.natBelow UInt32.size)
    context := ← parts.required 5 "context" Context.decode
    pending := ← parts.withDefault 6 ["pending"] [] (Json.Decode.listOf Json.Decode.string)
    timestamp := ← parts.required 7 "timestamp" Timestamp.decode
    error := ← parts.optional 8 "error" Json.Decode.string }

end Checkpoint

namespace ExecutionHeader

def entries (h : ExecutionHeader) : List (String × Json) := [
  ("id", h.id.toJson),
  ("workflowId", .string h.workflowId),
  ("userId", .string h.userId),
  ("status", h.status.toJson),
  ("context", Context.toJson h.context),
  ("currentStep", .nat h.currentStep),
  ("totalSteps", .nat h.totalSteps),
  ("error", .optional .string h.error),
  ("version", .nat h.version),
  ("checkpointCount", .nat h.checkpointCount),
  ("createdAt", h.createdAt.toJson),
  ("updatedAt", h.updatedAt.toJson)]

def toJson (h : ExecutionHeader) : Json := .object h.entries

/-- A header from the parts of a structure. Inside another structure the parts were held back until
the whole was read. -/
def ofParts (heldBack : Bool) (parts : Json.Parts) : Except DecodeError ExecutionHeader := do
  return {
    id := ← parts.required 0 "id" Uuid.decode
    workflowId := ← parts.required 1 "workflowId" Json.Decode.string
    userId := ← parts.required 2 "userId" Json.Decode.string
    status := ← parts.required 3 "status" (ExecutionStatus.decode heldBack)
    context := ← parts.required 4 "context" Context.decode
    currentStep := ← parts.required 5 "currentStep" (Json.Decode.natBelow UInt32.size)
    totalSteps := ← parts.required 6 "totalSteps" (Json.Decode.natBelow UInt32.size)
    error := ← parts.optional 7 "error" Json.Decode.string
    version := ← parts.required 8 "version" (Json.Decode.natBelow UInt64.size)
    checkpointCount := ← parts.required 9 "checkpointCount" (Json.Decode.natBelow UInt64.size)
    createdAt := ← parts.required 10 "createdAt" Timestamp.decode
    updatedAt := ← parts.required 11 "updatedAt" Timestamp.decode }

def decode : Json.Decode ExecutionHeader := fun json => do
  ofParts false (← Json.Parts.of 12 json)

end ExecutionHeader

namespace ExecutionRecord

def toJson (r : ExecutionRecord) : Json :=
  .object (r.header.entries ++ [("checkpoints", .array (r.checkpoints.map Checkpoint.toJson))])

def decode : Json.Decode ExecutionRecord := fun json => do
  let parts ← Json.Parts.ofObject json
  return {
    header := ← ExecutionHeader.ofParts true parts
    checkpoints := ← parts.required 12 "checkpoints" (Json.Decode.listOf Checkpoint.decode) }

end ExecutionRecord

end WorkflowEngine
