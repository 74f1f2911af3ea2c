import WorkflowEngine.Engine.Timeline
import WorkflowEngine.Error.Codec

/-!
# Calls as JSON

Results of calls, what interventions found, and appointments as JSON objects.
-/
namespace WorkflowEngine

namespace RunResult

/-- An error is left out when there is none. -/
def toJson (result : RunResult) : Json :=
  .object ([
    ("success", .bool result.success),
    ("executionId", result.executionId.toJson),
    ("status", result.status.toJson),
    ("output", result.output.toJson)] ++
    (result.error.map fun error => ("error", Json.string error)).toList ++
    [("retryable", .bool result.retryable)])

/-- The result of a call, or why it was refused. -/
def entriesOf : Except EngineError RunResult → List (String × Json)
  | .ok result => [("result", result.toJson)]
  | .error e => e.entries

end RunResult

namespace ExecutionRecord

/-- A record, or why it could not be read. -/
def entriesOf : Except EngineError ExecutionRecord → List (String × Json)
  | .ok record => [("record", record.toJson)]
  | .error e => e.entries

end ExecutionRecord

namespace Observation

def toJson : Observation → Json
  | .cancelled active => .object [("cancelled", .bool active)]
  | .activity active => .object [("active", .bool active)]
  | .resumed outcome => .object (RunResult.entriesOf outcome)
  | .state record => .object (ExecutionRecord.entriesOf record)
  | .notStarted => .string "not started"

end Observation

namespace Intervention

def ofName? : String → Option Intervention
  | "cancel" => some .cancel
  | "is_active" => some .isActive
  | "resume" => some .resume
  | "get_state" => some .getState
  | _ => none

end Intervention

namespace Appointment

def ofJson? (json : Json) : Option Appointment :=
  (Intervention.ofName? (json.textAt "do")).map fun intervention => ⟨json.natAt "ms", intervention⟩

end Appointment

end WorkflowEngine
