import WorkflowEngine.Definition.Workflow
import WorkflowEngine.Text.Blank

/-!
# Configuration of an engine

Deadlines, cycle policy and trigger types. Settings come from defaults, from environment variables,
whose unreadable values are ignored, and from a definition's own overrides. Times are milliseconds.
-/
namespace WorkflowEngine

structure Configuration where
  eventBufferSize : Nat
  /-- Deadline for one run or resume. -/
  workflowTimeoutMs : Nat
  /-- Deadline for a single node. -/
  nodeTimeoutMs : Option Nat
  cyclePolicy : CyclePolicy
  /-- Node types that mark entry points and are never dispatched. -/
  triggerTypes : List String
  deriving Inhabited

/-- Values of environment variables. -/
abbrev Environment := List (String × String)

namespace Environment

def get? (env : Environment) (name : String) : Option String :=
  (env.find? (·.1 == name)).map (·.2)

end Environment

namespace Configuration

def standard : Configuration where
  eventBufferSize := 1000
  workflowTimeoutMs := 30000
  nodeTimeoutMs := none
  cyclePolicy := .allow
  triggerTypes := ["trigger.manual", "trigger.schedule", "trigger.webhook", "trigger.initial"]

/-- Decimal digits after at most one plus sign, in 64 bits. -/
def parseCount (text : String) : Option Nat :=
  let digits :=
    match text.toList with
    | '+' :: rest => rest
    | cs => cs
  if digits.isEmpty || !digits.all Char.isDigit then none
  else
    let n := Json.naturalOf digits
    if n < UInt64.size then some n else none

/-- The names between commas, without blanks around them and without empty ones. -/
def parseNames (text : String) : List String :=
  ((text.splitOn ",").map Text.trim).filter (· ≠ "")

/-- A readable variable, trimmed. -/
def readVariable {α : Type} (env : Environment) (name : String) (parse : String → Option α) :
    Option α := do
  parse (Text.trim (← env.get? name))

def ofEnvironment (env : Environment) : Configuration where
  eventBufferSize :=
    ((readVariable env "FLOW_EVENT_BUFFER" parseCount).map (max 1)).getD standard.eventBufferSize
  workflowTimeoutMs :=
    (readVariable env "WORKFLOW_TIMEOUT_MS" parseCount).getD standard.workflowTimeoutMs
  nodeTimeoutMs := readVariable env "FLOW_NODE_TIMEOUT_MS" parseCount
  cyclePolicy :=
    (readVariable env "FLOW_CYCLE_POLICY" fun text => (CyclePolicy.parse text).toOption).getD
      standard.cyclePolicy
  triggerTypes :=
    match env.get? "FLOW_TRIGGER_TYPES" with
    | some names => parseNames names
    | none => standard.triggerTypes

def isTrigger (config : Configuration) (nodeType : String) : Bool :=
  config.triggerTypes.contains nodeType

/-- The run deadline, after the definition's own. -/
def timeoutFor (config : Configuration) (w : Workflow) : Nat :=
  w.settings.timeoutMs.getD config.workflowTimeoutMs

def cyclePolicyFor (config : Configuration) (w : Workflow) : CyclePolicy :=
  w.settings.cyclePolicy.getD config.cyclePolicy

def nodeTimeoutFor (config : Configuration) (node : NodeSpec) : Option Nat :=
  node.timeoutMs <|> config.nodeTimeoutMs

end Configuration

end WorkflowEngine
