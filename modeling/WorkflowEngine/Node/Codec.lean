import WorkflowEngine.Error.Codec
import WorkflowEngine.Event.Basic
import WorkflowEngine.Node.Basic

/-!
# Node calls as JSON

Contexts for calls of nodes outside of a run, and outcomes and metadata as JSON objects.
-/
namespace WorkflowEngine

/-- The context under a name, empty if there is no object. -/
def Context.part (json : Json) (name : String) : Context := (Context.ofJson? (json.part name)).getD []

namespace NodeOutcome

def kind : NodeOutcome → String
  | .proceed _ => "continue"
  | .pause _ => "pause"
  | .branch .. => "branch"

def entries (outcome : NodeOutcome) : List (String × Json) :=
  [("kind", .string outcome.kind), ("context", outcome.context.toJson)] ++
    (outcome.selection.map fun output => ("output", Json.string output)).toList

end NodeOutcome

namespace NodeResult

def entries : NodeResult → List (String × Json)
  | .ok outcome => outcome.entries
  | .error e => e.entries

end NodeResult

namespace NodeMetadata

def toJson (metadata : NodeMetadata) : Json := .object [
  ("description", .string metadata.description),
  ("category", .string metadata.category),
  ("outputs", .array (metadata.outputs.map fun port => .strings [port.name, port.description]))]

end NodeMetadata

namespace NodeContext

/-- What a node is called with outside of a run. -/
def standalone (config context : Context) (cancelled : Bool) : NodeContext where
  nodeId := "node"
  nodeName := "node"
  executionId := Uuid.nil
  workflowId := "wf"
  userId := "tester"
  config := config
  context := context
  tools := []
  cancelled := cancelled
  earlierCalls := 0

end NodeContext

namespace Behaviour

/-- What a call announces that is meant for people. -/
def Ending.messages (ending : Ending) : List String :=
  ending.events.filterMap fun event =>
    match event with
    | .info message => some message
    | _ => none

end Behaviour

end WorkflowEngine
