import WorkflowEngine.Store.Basic

/-!
# The store in memory

Every operation is atomic.
-/
namespace WorkflowEngine

structure StoredExecution where
  header : ExecutionHeader
  log : List Checkpoint
  deriving Inhabited

/-- Executions by their header's id, in order of insertion. -/
structure MemoryStore where
  executions : List StoredExecution := []
  deriving Inhabited

namespace MemoryStore

def find? (store : MemoryStore) (id : ExecutionId) : Option StoredExecution :=
  store.executions.find? (·.header.id == id)

def insert (store : MemoryStore) (header : ExecutionHeader) :
    Except StoreError Unit × MemoryStore :=
  match store.find? header.id with
  | some _ => (.error (.alreadyExists header.id), store)
  | none => (.ok (), ⟨store.executions ++ [⟨header, []⟩]⟩)

/-- Replace the execution of one id. -/
def update (store : MemoryStore) (id : ExecutionId) (execution : StoredExecution) : MemoryStore :=
  ⟨store.executions.map fun e => if e.header.id == id then execution else e⟩

def commit (store : MemoryStore) (c : Commit) : Except StoreError Unit × MemoryStore :=
  match store.find? c.header.id with
  | none => (.error (.notFound c.header.id), store)
  | some stored =>
    match stored.header.checkVersion c.expected with
    | .error e => (.error e, store)
    | .ok () => (.ok (), store.update c.header.id ⟨c.header, stored.log ++ c.appended⟩)

def loadHeader (store : MemoryStore) (id : ExecutionId) : Option ExecutionHeader :=
  (store.find? id).map (·.header)

def loadCheckpoints (store : MemoryStore) (id : ExecutionId) (start : Nat) :
    Except StoreError (List Checkpoint) :=
  match store.find? id with
  | none => .error (.notFound id)
  | some stored => .ok (stored.log.filter (start ≤ ·.sequence))

def list (store : MemoryStore) (workflowId : Option WorkflowId) : List ExecutionHeader :=
  ExecutionHeader.newestFirst
    ((store.executions.map (·.header)).filter (·.isOf workflowId))

instance : ExecutionStore MemoryStore where
  insert := insert
  commit := commit
  loadHeader store id := .ok (store.loadHeader id)
  loadCheckpoints := loadCheckpoints
  list store workflowId := .ok (store.list workflowId)

end MemoryStore

end WorkflowEngine
