import WorkflowEngine.Node.Codec
import WorkflowEngine.State.Operation
import WorkflowEngine.Store.Fault

/-!
# States and their operations as JSON

The state of an execution as an object with what can be asked of it, operations by their names, and
the faults of a store.
-/
namespace WorkflowEngine

namespace ResumePoint

def toJson (point : ResumePoint) : Json := .object [
  ("nodeId", .string point.nodeId),
  ("stepNumber", .nat point.stepNumber),
  ("failed", .bool point.failed),
  ("pending", .strings point.pending)]

end ResumePoint

namespace ExecutionState

/-- The plain answers about a state, in a fixed order. -/
def summary (state : ExecutionState) : List Json := [
  state.id.toJson,
  .string state.header.workflowId,
  .string state.header.userId,
  state.status.toJson,
  .nat state.header.currentStep,
  .nat state.header.totalSteps,
  .nat state.checkpoints.length,
  .optional .string state.header.error,
  .nat state.context.length]

def toJson (state : ExecutionState) : Json :=
  state.snapshot.toJson.extend [
    ("canResume", .bool state.canResume),
    ("resumePoint", .optional ResumePoint.toJson state.resumePoint?),
    ("checkpointed", .strings state.checkpointedNodes),
    ("accessors", .array state.summary)]

end ExecutionState

namespace StateOperation

/-- An operation by its name and what it needs; nothing for a name that is none. -/
def decode (json : Json) : Except DecodeError (Option StateOperation) :=
  let node := json.textAt "node" "n"
  let name := json.textAt "name" node
  let pending := json.textsAt "pending"
  let error := json.textAt "error" "boom"
  match json.textAt "do" with
  | "update_context" => .ok (some (.updateContext (Context.part json "context")))
  | "set_context" => .ok (some (.setContext (Context.part json "context")))
  | "increment_step" => .ok (some .incrementStep)
  | "set_status" =>
    (ExecutionStatus.decode false (json.part "status")).map fun status => some (.setStatus status)
  | "checkpoint" => .ok (some (.checkpoint node name pending))
  | "error_checkpoint" => .ok (some (.errorCheckpoint node name pending error))
  | "mark_completed" => .ok (some .markCompleted)
  | "mark_failed" => .ok (some (.markFailed error))
  | "save" => .ok (some .save)
  | "discard" => .ok (some .discard)
  | _ => .ok none

end StateOperation

namespace FaultPlan

def ofJson (json : Json) : FaultPlan where
  failCommits := json.natsAt "fail_commits"
  conflictCommits := json.natsAt "conflict_commits"
  slowWrite := json.pairsAt "slow_write" Json.asNat? Json.asNat?
  slowAck := json.pairsAt "slow_ack" Json.asNat? Json.asNat?
  failInsert := json.flagAt "fail_insert"
  failLoad := json.flagAt "fail_load"

end FaultPlan

end WorkflowEngine
