import WorkflowEngine.Service.Message
import WorkflowEngine.Uuid

/-!
# Routes

What a request asks for, by its method and its path. A path that ends in a slash is another path.
-/
namespace WorkflowEngine

namespace Service

/-- The id of an execution as it stands in a path. -/
abbrev WrittenId := String

inductive Route where
  | health
  | listWorkflows
  | createWorkflow
  | getWorkflow (id : String)
  | deleteWorkflow (id : String)
  | startExecution (workflowId : String)
  | listExecutions
  | getExecution (id : WrittenId)
  | resumeExecution (id : WrittenId)
  | cancelExecution (id : WrittenId)
  | events
  | listNodes
  deriving DecidableEq, Inhabited

namespace Route

/-- A route by method and path. A part of a path that names something is not
empty, and its last escapes are undone. -/
def find? : (method : String) → (segments : List String) → Option Route
  | "GET", ["health"] => some .health
  | "GET", ["api", "workflows"] => some .listWorkflows
  | "POST", ["api", "workflows"] => some .createWorkflow
  | "GET", ["api", "workflows", id] => named id .getWorkflow
  | "DELETE", ["api", "workflows", id] => named id .deleteWorkflow
  | "POST", ["api", "workflows", id, "execute"] => named id .startExecution
  | "GET", ["api", "executions"] => some .listExecutions
  | "GET", ["api", "executions", id] => named id .getExecution
  | "POST", ["api", "executions", id, "resume"] => named id .resumeExecution
  | "POST", ["api", "executions", id, "cancel"] => named id .cancelExecution
  | "GET", ["api", "events"] => some .events
  | "GET", ["api", "nodes"] => some .listNodes
  | _, _ => none
where
  named (id : String) (route : String → Route) : Option Route :=
    if id = "" then none else some (route (Percent.undoText id))

end Route

end Service

end WorkflowEngine
