import WorkflowEngine.Error

/-!
# Durable storage of executions

A store keeps headers and checkpoint logs apart: a header is replaced by every write, checkpoints are
only appended. A commit covers both and is refused when the stored version is not the one the writer
read. A record is loaded in two reads, of the header and of the log; the log is cut to what the header
accounts for, because a commit may land between them.
-/
namespace WorkflowEngine

/-- One durable write: the new header, the checkpoints it adds, and the version it replaces. -/
structure Commit where
  header : ExecutionHeader
  appended : List Checkpoint
  expected : Nat
  deriving Inhabited

/-- Milliseconds a commit takes before and after it takes effect. -/
structure Latency where
  before : Nat := 0
  after : Nat := 0
  deriving DecidableEq, Inhabited

class ExecutionStore (σ : Type) where
  /-- Add a new execution with an empty log. -/
  insert : σ → ExecutionHeader → Except StoreError Unit × σ
  commit : σ → Commit → Except StoreError Unit × σ
  loadHeader : σ → ExecutionId → Except StoreError (Option ExecutionHeader)
  /-- Committed checkpoints from a position on, in order. -/
  loadCheckpoints : σ → ExecutionId → Nat → Except StoreError (List Checkpoint)
  /-- Headers, newest first, of one workflow if one is given. -/
  list : σ → Option WorkflowId → Except StoreError (List ExecutionHeader)
  /-- How long the next commit takes. -/
  latency : σ → Latency := fun _ => {}

namespace ExecutionStore

variable {σ : Type} [ExecutionStore σ]

/-- A header and the log as far as the header accounts for it. -/
def assemble (header : ExecutionHeader) (log : List Checkpoint) : ExecutionRecord :=
  { header, checkpoints := log.take header.checkpointCount }

def load (store : σ) (id : ExecutionId) : Except StoreError (Option ExecutionRecord) := do
  match ← loadHeader store id with
  | none => return none
  | some header => return some (assemble header (← loadCheckpoints store id 0))

end ExecutionStore

/-- Refuse a commit that does not replace the stored version. -/
def ExecutionHeader.checkVersion (stored : ExecutionHeader) (expected : Nat) :
    Except StoreError Unit :=
  if stored.version = expected then .ok ()
  else .error (.conflict stored.id expected stored.version)

/-- Newest first; those created at one moment keep their order. -/
def ExecutionHeader.newestFirst (headers : List ExecutionHeader) : List ExecutionHeader :=
  headers.mergeSort fun a b => a.createdAt.order b.createdAt != .lt

/-- Does a header belong to the workflow asked for, if one is? -/
def ExecutionHeader.isOf (header : ExecutionHeader) (workflowId : Option WorkflowId) : Bool :=
  workflowId.all (· == header.workflowId)

end WorkflowEngine
