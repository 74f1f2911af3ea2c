import WorkflowEngine.Event.Basic
import WorkflowEngine.Error
import WorkflowEngine.Node.Tools
import WorkflowEngine.Value.Json

/-!
# Nodes

A node type is an executor: given a snapshot of the run it says how the call unfolds. A call is not run
here but described, as a sequence of announcements and waits that ends in an answer, so that whoever
drives it decides when time passes and whether the call is cut short.
-/
namespace WorkflowEngine

/-- What a node asks the scheduler to do next. Each carries the new context. -/
inductive NodeOutcome where
  /-- Follow every outgoing edge. -/
  | proceed (context : Context)
  /-- Hand control back until resumed. -/
  | pause (context : Context)
  /-- Follow only the edges that leave through an output. -/
  | branch (output : String) (context : Context)
  deriving Inhabited

namespace NodeOutcome

/-- The context key through which an untyped executor asks for a pause. -/
def pauseKey : String := "__pause"

/-- The context key through which an untyped executor selects a branch. -/
def branchKey : String := "__selectedBranch"

/-- Interpret a context that may carry the reserved keys; a pause wins over a branch, and both keys
are removed. -/
def ofContext (context : Context) : NodeOutcome :=
  let rest := (context.erase pauseKey).erase branchKey
  if (context.get? pauseKey).any Value.isTruthy then .pause rest
  else
    match (context.get? branchKey).bind Value.asString? with
    | some output => .branch output rest
    | none => .proceed rest

def context : NodeOutcome → Context
  | .proceed context => context
  | .pause context => context
  | .branch _ context => context

/-- The output a branch selects. -/
def selection : NodeOutcome → Option String
  | .branch output _ => some output
  | _ => none

def isPause : NodeOutcome → Bool
  | .pause _ => true
  | _ => false

end NodeOutcome

/-- What a node is called with. -/
structure NodeContext where
  nodeId : NodeId
  nodeName : String
  executionId : ExecutionId
  workflowId : WorkflowId
  userId : String
  config : Context
  /-- The context of the run as of the dispatch. -/
  context : Context
  tools : Tools
  /-- Has the run been cancelled already? -/
  cancelled : Bool
  /-- How often this node type was called before. -/
  earlierCalls : Nat
  deriving Inhabited

namespace NodeContext

def requireConfig (ctx : NodeContext) (name : String) : Except NodeError Value :=
  match ctx.config.get? name with
  | some value => .ok value
  | none => .error (.configuration ("Missing config: " ++ name))

def requireConfigText (ctx : NodeContext) (name : String) : Except NodeError String := do
  match (← ctx.requireConfig name).asString? with
  | some text => return text
  | none => throw (.configuration ("Config '" ++ name ++ "' must be a string"))

def configOr (ctx : NodeContext) (name : String) (absent : Value) : Value :=
  (ctx.config.get? name).getD absent

def requireInput (ctx : NodeContext) (name : String) : Except NodeError Value :=
  match ctx.context.get? name with
  | some value => .ok value
  | none => .error (.missingInput name)

end NodeContext

abbrev NodeResult := Except NodeError NodeOutcome

/-- How a call of a node unfolds. -/
inductive Behaviour where
  | answer (result : NodeResult)
  | emit (event : NodeEvent) (rest : Behaviour)
  /-- Wait for a number of milliseconds; a cancellation meanwhile ends the call. -/
  | sleep (milliseconds : Nat) (rest : Behaviour)
  /-- Never answer. `attentive` tells whether the call takes notice of its cancellation. -/
  | hang (attentive : Bool)
  deriving Inhabited

namespace Behaviour

def fail (error : NodeError) : Behaviour := .answer (.error error)

/-- Announce something, then go on. -/
def info (message : String) (rest : Behaviour) : Behaviour := .emit (.info message) rest

/-- Go on with a value, or fail at once. -/
def ofExcept {α : Type} (step : Except NodeError α) (rest : α → Behaviour) : Behaviour :=
  match step with
  | .ok a => rest a
  | .error error => fail error

/-- How a call ends that nobody drives but the clock. -/
structure Ending where
  /-- Nothing, if the call never answers. -/
  result : Option NodeResult
  events : List NodeEvent
  /-- Milliseconds it took. -/
  elapsed : Nat

/-- Let a call run by itself from `elapsed` on, cancelling it at a given time. -/
def alone (cancelAt : Option Nat) (elapsed : Nat) : Behaviour → Ending
  | .answer result => ⟨some result, [], elapsed⟩
  | .emit event rest =>
    let ending := alone cancelAt elapsed rest
    { ending with events := event :: ending.events }
  | .sleep milliseconds rest =>
    match cancelAt with
    | some time =>
      if time < elapsed + milliseconds || time ≤ elapsed then
        ⟨some (.error .cancelled), [], max time elapsed⟩
      else alone cancelAt (elapsed + milliseconds) rest
    | none => alone cancelAt (elapsed + milliseconds) rest
  | .hang _ => ⟨none, [], elapsed⟩

end Behaviour

structure PortDefinition where
  name : String
  description : String
  deriving DecidableEq, Inhabited

/-- What listings tell about a node type. -/
structure NodeMetadata where
  description : String := ""
  category : String := "general"
  outputs : List PortDefinition := []
  deriving DecidableEq, Inhabited

/-- A node type. -/
structure Executor where
  nodeType : String
  metadata : NodeMetadata := {}
  /-- Check a configuration when a definition is loaded. -/
  validate : Context → Except NodeError Unit := fun _ => .ok ()
  execute : NodeContext → Behaviour

instance : Inhabited Executor where
  default := { nodeType := "", execute := fun _ => .hang false }

end WorkflowEngine
