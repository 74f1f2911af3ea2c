import WorkflowEngine.Configuration
import WorkflowEngine.Json.Loose

/-!
# Configurations as JSON

A configuration is written as an object of its settings. Settings given as an object replace those of
a configuration; one that is absent or of another kind is left as it is.
-/
namespace WorkflowEngine

namespace Configuration

/-- The trigger types in order, without repetition. -/
def sortedTriggers (config : Configuration) : List String :=
  (Fields.ofEntries (config.triggerTypes.map fun name => (name, ()))).keys

def entries (config : Configuration) : List (String × Json) := [
  ("event_buffer_size", .nat config.eventBufferSize),
  ("workflow_timeout_ms", .nat config.workflowTimeoutMs),
  ("node_timeout_ms", .optional .nat config.nodeTimeoutMs),
  ("cycle_policy", .string config.cyclePolicy.name),
  ("trigger_types", .strings config.sortedTriggers)]

/-- The configuration under given settings. -/
def override (config : Configuration) (settings : Json) : Configuration where
  eventBufferSize := settings.natAt "event_buffer_size" config.eventBufferSize
  workflowTimeoutMs := settings.natAt "workflow_timeout_ms" config.workflowTimeoutMs
  nodeTimeoutMs := settings.natAt? "node_timeout_ms" <|> config.nodeTimeoutMs
  cyclePolicy :=
    ((settings.textAt? "cycle_policy").bind CyclePolicy.ofName?).getD config.cyclePolicy
  triggerTypes := (settings.textsAt? "trigger_types").getD config.triggerTypes

end Configuration

/-- The variables of an object whose values are texts. -/
def Environment.ofJson (json : Json) : Environment :=
  json.entries.filterMap fun (name, value) => value.asText?.map fun text => (name, text)

end WorkflowEngine
