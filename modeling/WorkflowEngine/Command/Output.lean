import WorkflowEngine.Event.Basic
import WorkflowEngine.Engine.Call
import WorkflowEngine.Number.Decimal
import WorkflowEngine.Text.Padding

/-!
# Output of commands

What commands print, line by line. Durations and times of day are kept apart from the text around
them, so that a reader who cannot know them can leave them out.
-/
namespace WorkflowEngine

/-- A part of a line. -/
inductive Piece where
  | text (text : String)
  | duration (milliseconds : Nat)
  | time (text : String)
  deriving DecidableEq, Inhabited

abbrev Line := List Piece

namespace Line

/-- A line without durations and times. -/
def plain (text : String) : Line := [.text text]

def empty : Line := []

/-- The text of a line, with given writings of durations and times. -/
def write (duration : Nat → String) (time : String → String) (line : Line) : String :=
  String.join (line.map fun piece =>
    match piece with
    | .text text => text
    | .duration milliseconds => duration milliseconds
    | .time text => time text)

def toText (line : Line) : String := line.write (fun ms => toString ms) id

end Line

namespace NodeEvent

/-- What a node announces, under its id. Data is not shown. -/
def lines (nodeId : NodeId) : NodeEvent → List Line
  | .info message => [Line.plain ("     ℹ️  [" ++ nodeId ++ "] " ++ message)]
  | .warning message => [Line.plain ("     ⚠️  [" ++ nodeId ++ "] " ++ message)]
  | .progress percent message =>
    let head := "     📊 [" ++ nodeId ++ "] " ++ String.ofList (Decimal.write percent) ++ "%"
    match message with
    | some message => [Line.plain (head ++ " - " ++ message)]
    | none => [Line.plain head]
  | .data .. => []

end NodeEvent

namespace ExecutionEvent

def lines : ExecutionEvent → List Line
  | .workflowStarted _ _ resumed _ =>
    [Line.plain (if resumed then "▶️  Workflow resumed" else "▶️  Workflow started")]
  | .nodeStarted _ nodeId nodeType _ =>
    [Line.plain ("  ⚡ Starting node: " ++ nodeId ++ " (" ++ nodeType ++ ")")]
  | .nodeCompleted _ nodeId step durationMs _ =>
    [[.text ("  ✅ Node " ++ nodeId ++ " completed in "), .duration durationMs,
      .text ("ms (step " ++ toString step ++ ")")]]
  | .nodePaused _ nodeId _ _ => [Line.plain ("  ⏸️  Node " ++ nodeId ++ " paused the workflow")]
  | .nodeFailed _ nodeId error _ =>
    [Line.plain ("  ❌ Node " ++ nodeId ++ " failed: " ++ error)]
  | .nodeEvent _ nodeId event _ => event.lines nodeId
  | .workflowFinished _ status durationMs _ _ =>
    [[.text ("🏁 Workflow " ++ status.name ++ " after "), .duration durationMs, .text "ms"]]

end ExecutionEvent

namespace RunResult

/-- The summary of a run. -/
def lines (result : RunResult) : List Line :=
  [Line.empty, Line.plain "📊 Execution Summary:",
    Line.plain ("   Execution ID: " ++ result.executionId.toText),
    Line.plain ("   Status: " ++ result.status.name)] ++
  (if result.output.isEmpty then []
    else Line.empty :: Line.plain "📤 Context:" ::
      result.output.map fun (key, value) => Line.plain ("     " ++ key ++ ": " ++ value.display)) ++
  (if result.error.isSome then [Line.empty] else [])

/-- The complaint about a run that failed. -/
def complaint? (result : RunResult) : Option String :=
  result.error.map fun error =>
    "execution " ++ result.executionId.toText ++ " failed" ++
      (if result.retryable then " (retryable)" else "") ++ ": " ++ error

end RunResult

namespace Checkpoint

/-- A checkpoint, its error and its continuation. -/
def lines (checkpoint : Checkpoint) : List Line :=
  Line.plain ("  " ++ (if checkpoint.isError then "❌" else "✅") ++ " #" ++
    toString checkpoint.sequence ++ " step " ++ toString checkpoint.stepNumber ++ " " ++
    checkpoint.nodeId ++ " (" ++ checkpoint.nodeName ++ ")") ::
  ((checkpoint.error.map fun error => Line.plain ("       error: " ++ error)).toList ++
    (if checkpoint.pending.isEmpty then []
      else [Line.plain ("       next: " ++ ", ".intercalate checkpoint.pending)]))

end Checkpoint

namespace ExecutionRecord

/-- A record, with its checkpoints if they are asked for. -/
def lines (record : ExecutionRecord) (checkpoints : Bool) : List Line :=
  let header := record.header
  [Line.plain ("🔎 Execution " ++ header.id.toText),
    Line.plain ("   Workflow: " ++ header.workflowId),
    Line.plain ("   User: " ++ header.userId),
    Line.plain ("   Status: " ++ header.status.name),
    Line.plain ("   Step: " ++ toString header.currentStep ++ "/" ++ toString header.totalSteps),
    Line.plain ("   Checkpoints: " ++ toString record.checkpoints.length),
    [.text "   Updated: ", .time header.updatedAt.toOffsetText]] ++
  (header.error.map fun error => Line.plain ("   Error: " ++ error)).toList ++
  (if checkpoints then Line.empty :: record.checkpoints.flatMap Checkpoint.lines else [])

end ExecutionRecord

namespace ExecutionHeader

/-- One line of a listing. -/
def line (header : ExecutionHeader) : Line :=
  [.text (header.id.toText ++ "  " ++ Text.padRight 9 header.status.name ++ "  " ++
    Text.padLeft 3 (toString header.currentStep) ++ "/" ++
    Text.padRight 3 (toString header.totalSteps) ++ "  "),
    .time header.createdAt.toShortText,
    .text ("  " ++ header.workflowId)]

end ExecutionHeader

namespace Executor

/-- A node type in a listing. -/
def lines (executor : Executor) : List Line :=
  let metadata := executor.metadata
  [Line.plain ("  • " ++ executor.nodeType ++ " (" ++ metadata.category ++ ")"),
    Line.plain ("    " ++ metadata.description)] ++
  metadata.outputs.map fun port => Line.plain ("      → " ++ port.name ++ ": " ++ port.description)

end Executor

end WorkflowEngine
