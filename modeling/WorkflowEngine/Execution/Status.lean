import WorkflowEngine.Json.Decode

/-!
# Lifecycle of an execution

An execution is created pending, runs, and ends completed, failed or paused; a paused or failed one may
run again. Completed is final.
-/
namespace WorkflowEngine

inductive ExecutionStatus where
  | pending
  | running
  | completed
  | failed
  | paused
  deriving DecidableEq, Inhabited

namespace ExecutionStatus

def all : List ExecutionStatus := [.pending, .running, .completed, .failed, .paused]

/-- The legal lifecycle steps. -/
def canBecome : ExecutionStatus → ExecutionStatus → Bool
  | .pending, .running => true
  | .pending, .failed => true
  | .running, .completed => true
  | .running, .failed => true
  | .running, .paused => true
  | .paused, .running => true
  | .paused, .failed => true
  | .failed, .running => true
  | .failed, .failed => true
  | _, _ => false

def isTerminal : ExecutionStatus → Bool
  | .completed => true
  | .failed => true
  | _ => false

def name : ExecutionStatus → String
  | .pending => "PENDING"
  | .running => "RUNNING"
  | .completed => "COMPLETED"
  | .failed => "FAILED"
  | .paused => "PAUSED"

def ofName? (name : String) : Option ExecutionStatus := all.find? (·.name == name)

def toJson (status : ExecutionStatus) : Json := .string status.name

/-- `heldBack` as in `Json.Decode.unitName`. -/
def decode (heldBack : Bool) : Json.Decode ExecutionStatus := fun json => do
  let name ← Json.Decode.unitName heldBack json
  match ofName? name with
  | some status => return status
  | none => throw (.unknownName name)

end ExecutionStatus

end WorkflowEngine
