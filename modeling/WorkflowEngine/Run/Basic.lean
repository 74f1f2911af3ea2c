import WorkflowEngine.Configuration
import WorkflowEngine.Graph.Basic
import WorkflowEngine.Node.Registry
import WorkflowEngine.Host

/-!
# Runs

A run walks a definition one node at a time, first in, first out. Every result is committed to the
store before the next node is dispatched, and a commit, a node call or a read may take its time. So a
run is a state that moves in single steps: `Run.Stage` tells what it is about to do or waits for.
-/
namespace WorkflowEngine

/-- What a run needs besides the state of its execution. -/
structure Scope where
  workflow : Workflow
  config : Configuration
  registry : Registry
  tools : Tools

namespace Scope

def isTrigger (scope : Scope) (node : NodeSpec) : Bool := scope.config.isTrigger node.nodeType

/-- The run deadline, in milliseconds. -/
def deadlineMs (scope : Scope) : Nat := scope.config.timeoutFor scope.workflow

end Scope

/-- A call of a node that has not answered yet. -/
structure NodeCall where
  node : NodeSpec
  /-- The queue behind the node. -/
  pending : List NodeId
  /-- How the call goes on. -/
  rest : Behaviour
  startedAt : Nat
  /-- When it goes on. -/
  resumesAt : Nat
  /-- The node deadline, and when it is over. -/
  limit : Option (Nat × Nat)
  deriving Inhabited

namespace Run

/-- What a commit is for, and with it what follows when it succeeds. -/
inductive Purpose where
  /-- The run has begun. -/
  | entry
  /-- A node succeeded, and these come next. -/
  | completion (nodeId : NodeId) (successors : List NodeId) (durationMs : Nat)
  | pause (nodeId : NodeId)
  | failure (failure : NodeFailure)
  /-- The graph is exhausted. -/
  | conclusion
  /-- The run is given up. -/
  | abort (cause : EngineError)
  deriving Inhabited

inductive Stage where
  /-- Before the first commit. -/
  | entering
  /-- Between two nodes. -/
  | dispatching
  | executing (call : NodeCall)
  /-- Waiting for a commit. -/
  | committing (purpose : Purpose)
  /-- Interrupted; a commit may still be on its way. -/
  | settling (cause : EngineError)
  /-- Interrupted, and behind this stored header; the log is read next. -/
  | catchingUp (cause : EngineError) (stored : ExecutionHeader)
  /-- About to be given up. -/
  | aborting (cause : EngineError)
  | finished (result : Except EngineError ExecutionStatus)
  deriving Inhabited

end Run

structure Run where
  handle : Handle
  /-- Nodes to look at next. -/
  queue : List NodeId
  /-- Nodes that are not called again. -/
  dispatched : List NodeId
  stage : Run.Stage
  startedAt : Nat
  deadlineMs : Nat
  /-- Was the run cancelled, or did its deadline cancel its nodes? -/
  cancelled : Bool
  /-- Calls that would take notice of a cancellation. -/
  attentive : Nat := 0
  deriving Inhabited

namespace Run

def state (run : Run) : ExecutionState := run.handle.state

def id (run : Run) : ExecutionId := run.state.id

def deadlineAt (run : Run) : Nat := run.startedAt + run.deadlineMs

/-- The result, once the run is over. -/
def result? (run : Run) : Option (Except EngineError ExecutionStatus) :=
  match run.stage with
  | .finished result => some result
  | _ => none

/-- Can a cancellation or the deadline still end the run? -/
def isInterruptible (run : Run) : Bool :=
  match run.stage with
  | .entering => true
  | .dispatching => true
  | .executing _ => true
  | .committing (.abort _) => false
  | .committing _ => true
  | _ => false

def setStage (run : Run) (stage : Stage) : Run := { run with stage }

def withState (run : Run) (state : ExecutionState) : Run :=
  { run with handle := { run.handle with state } }

/-- Where a run begins: a fresh execution at the entry nodes, any other at the continuation of its
last checkpoint, if it has one. -/
def initialQueue (scope : Scope) (state : ExecutionState) : List NodeId :=
  match state.resumePoint? with
  | some point =>
    if state.status = .pending then scope.workflow.entryNodes scope.config.isTrigger
    else point.pending
  | none => scope.workflow.entryNodes scope.config.isTrigger

variable {σ : Type}

/-- Begin a run of an execution. -/
def start (scope : Scope) (state : ExecutionState) (cancelled : Bool) (host : Host σ) :
    Run × Host σ :=
  ({ handle := { state }
     queue := initialQueue scope state
     dispatched := state.checkpointedNodes
     stage := .entering
     startedAt := host.now
     deadlineMs := scope.deadlineMs
     cancelled },
   host.announce (.workflowStarted state.id scope.workflow.id (state.status != .pending)))

end Run

end WorkflowEngine
