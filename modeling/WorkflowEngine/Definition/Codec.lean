import WorkflowEngine.Definition.Workflow
import WorkflowEngine.Execution.Codec

/-!
# Definitions as JSON

A definition needs only its nodes. A definition without an id is given one by the reader's caller. The
configuration of a node is written under `data` and read under `data` or `config`; a node's absent
deadline is left out on writing.
-/
namespace WorkflowEngine

namespace CyclePolicy

def toJson (policy : CyclePolicy) : Json := .string policy.name

def decode : Json.Decode CyclePolicy := fun json => do
  let name ← Json.Decode.unitName false json
  match ofName? name with
  | some policy => return policy
  | none => throw (.unknownName name)

end CyclePolicy

namespace NodeSpec

def toJson (node : NodeSpec) : Json :=
  .object ([
    ("id", .string node.id),
    ("type", .string node.nodeType),
    ("name", .optional .string node.name),
    ("data", Context.toJson node.config)] ++
    match node.timeoutMs with
    | some ms => [("timeoutMs", .nat ms)]
    | none => [])

def decode : Json.Decode NodeSpec := fun json => do
  let parts ← Json.Parts.of 5 json
  return {
    id := ← parts.required 0 "id" Json.Decode.string
    nodeType := ← parts.required 1 "type" Json.Decode.string
    name := ← parts.optional 2 "name" Json.Decode.string
    config := ← parts.withDefault 3 ["data", "config"] [] Context.decode
    timeoutMs := ← parts.optional 4 "timeoutMs" (Json.Decode.natBelow UInt64.size) }

end NodeSpec

namespace Connection

def toJson (c : Connection) : Json := .object [
  ("fromNodeId", .string c.fromNodeId),
  ("toNodeId", .string c.toNodeId),
  ("fromOutput", .string c.fromOutput),
  ("toInput", .string c.toInput)]

def decode : Json.Decode Connection := fun json => do
  let parts ← Json.Parts.of 4 json
  return {
    fromNodeId := ← parts.required 0 "fromNodeId" Json.Decode.string
    toNodeId := ← parts.required 1 "toNodeId" Json.Decode.string
    fromOutput := ← parts.withDefault 2 ["fromOutput"] defaultPort Json.Decode.string
    toInput := ← parts.withDefault 3 ["toInput"] defaultPort Json.Decode.string }

end Connection

namespace WorkflowSettings

def toJson (s : WorkflowSettings) : Json := .object [
  ("timeoutMs", .optional .nat s.timeoutMs),
  ("cyclePolicy", .optional CyclePolicy.toJson s.cyclePolicy)]

def decode : Json.Decode WorkflowSettings := fun json => do
  let parts ← Json.Parts.of 2 json
  return {
    timeoutMs := ← parts.optional 0 "timeoutMs" (Json.Decode.natBelow UInt64.size)
    cyclePolicy := ← parts.optional 1 "cyclePolicy" CyclePolicy.decode }

end WorkflowSettings

namespace Workflow

def toJson (w : Workflow) : Json := .object [
  ("id", .string w.id),
  ("name", .string w.name),
  ("description", .optional .string w.description),
  ("nodes", .array (w.nodes.map NodeSpec.toJson)),
  ("connections", .array (w.connections.map Connection.toJson)),
  ("settings", w.settings.toJson)]

/-- `fallbackId` becomes the id of a definition without one. -/
def decode (fallbackId : WorkflowId) : Json.Decode Workflow := fun json => do
  let parts ← Json.Parts.of 6 json
  return {
    id := ← parts.withDefault 0 ["id"] fallbackId Json.Decode.string
    name := ← parts.withDefault 1 ["name"] "" Json.Decode.string
    description := ← parts.optional 2 "description" Json.Decode.string
    nodes := ← parts.required 3 "nodes" (Json.Decode.listOf NodeSpec.decode)
    connections := ←
      parts.withDefault 4 ["connections"] [] (Json.Decode.listOf Connection.decode)
    settings := ← parts.withDefault 5 ["settings"] {} WorkflowSettings.decode }

end Workflow

end WorkflowEngine
