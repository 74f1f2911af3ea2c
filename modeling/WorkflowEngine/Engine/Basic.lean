import WorkflowEngine.Configuration
import WorkflowEngine.Graph.Cycle
import WorkflowEngine.Node.Registry

/-!
# The engine

An engine has a configuration, node types and tool handles for all its runs, the definitions registered
with it, and the executions it is running. Of one execution at most one run is active at a time.
-/
namespace WorkflowEngine

/-- A running execution, and whether its cancellation was asked for. -/
structure Activation where
  id : ExecutionId
  cancelled : Bool := false
  deriving DecidableEq, Inhabited

structure Engine where
  config : Configuration := .standard
  registry : Registry := .empty
  tools : Tools := []
  /-- Registered definitions by their id. -/
  workflows : Fields Workflow := []
  active : List Activation := []

namespace Engine

/-- Register a definition that is well formed, in place of one with its id. -/
def register (engine : Engine) (workflow : Workflow) : Except EngineError Engine :=
  match workflow.validate with
  | .error e => .error (.workflow e)
  | .ok () => .ok { engine with workflows := engine.workflows.insert workflow.id workflow }

def workflow? (engine : Engine) (id : WorkflowId) : Option Workflow := engine.workflows.get? id

/-- Forget a definition. -/
def remove (engine : Engine) (id : WorkflowId) : Engine :=
  { engine with workflows := engine.workflows.erase id }

/-- The registered definitions, sorted by name. -/
def listWorkflows (engine : Engine) : List Workflow :=
  (engine.workflows.map (·.2)).mergeSort fun a b => a.name ≤ b.name

def isActive (engine : Engine) (id : ExecutionId) : Bool := engine.active.any (·.id == id)

/-- Was the cancellation of a running execution asked for? -/
def isCancelled (engine : Engine) (id : ExecutionId) : Bool :=
  engine.active.any fun a => a.id == id && a.cancelled

/-- Ask for the cancellation of an execution; one that is not active is left alone. -/
def cancel (engine : Engine) (id : ExecutionId) : Engine :=
  { engine with
    active := engine.active.map fun a => if a.id == id then { a with cancelled := true } else a }

/-- Take an execution on, unless it is active already. -/
def activate (engine : Engine) (id : ExecutionId) : Except EngineError Engine :=
  if engine.isActive id then .error (.executionBusy id)
  else .ok { engine with active := engine.active ++ [⟨id, false⟩] }

def release (engine : Engine) (id : ExecutionId) : Engine :=
  { engine with active := engine.active.filter (·.id != id) }

/-- Is a definition fit to be run under this engine's cycle policy? -/
def accept (engine : Engine) (workflow : Workflow) : Except EngineError Unit :=
  match workflow.validate with
  | .error e => .error (.workflow e)
  | .ok () =>
    match engine.config.cyclePolicyFor workflow with
    | .allow => .ok ()
    | .reject => workflow.ensureAcyclic.mapError .workflow

/-- The most steps a fresh run of a definition can take. -/
def totalSteps (engine : Engine) (workflow : Workflow) : Nat :=
  workflow.executableCount engine.config.isTrigger

end Engine

end WorkflowEngine
