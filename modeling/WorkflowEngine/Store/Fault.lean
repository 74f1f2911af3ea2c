import WorkflowEngine.Store.File
import WorkflowEngine.Store.Memory

/-!
# Stores that fail or take their time

A store in memory or in files, and a wrapper that makes chosen commits fail or slow. Commits are
counted from 1, failing ones included. A commit that fails changes nothing.
-/
namespace WorkflowEngine

/-- A store of either kind. -/
inductive AnyStore where
  | memory (store : MemoryStore)
  | files (store : FileStore)
  deriving Inhabited

namespace AnyStore

instance : ExecutionStore AnyStore where
  insert
    | .memory s, header => (ExecutionStore.insert s header).map id .memory
    | .files s, header => (ExecutionStore.insert s header).map id .files
  commit
    | .memory s, c => (ExecutionStore.commit s c).map id .memory
    | .files s, c => (ExecutionStore.commit s c).map id .files
  loadHeader
    | .memory s, id => ExecutionStore.loadHeader s id
    | .files s, id => ExecutionStore.loadHeader s id
  loadCheckpoints
    | .memory s, id, start => ExecutionStore.loadCheckpoints s id start
    | .files s, id, start => ExecutionStore.loadCheckpoints s id start
  list
    | .memory s, workflowId => ExecutionStore.list s workflowId
    | .files s, workflowId => ExecutionStore.list s workflowId

end AnyStore

/-- Which operations fail or are slow. -/
structure FaultPlan where
  failCommits : List Nat := []
  /-- Commits that are refused as if another writer had been seven versions ahead. -/
  conflictCommits : List Nat := []
  /-- Milliseconds a commit waits before it takes effect. -/
  slowWrite : List (Nat × Nat) := []
  /-- Milliseconds a commit waits after it took effect. -/
  slowAck : List (Nat × Nat) := []
  failInsert : Bool := false
  failLoad : Bool := false
  deriving Inhabited

structure FaultyStore (σ : Type) where
  inner : σ
  plan : FaultPlan := {}
  /-- Commits so far. -/
  commits : Nat := 0

namespace FaultyStore

variable {σ : Type} [ExecutionStore σ]

/-- How far ahead of the writer a refused commit claims the store to be. -/
def conflictLead : Nat := 7

def commit (store : FaultyStore σ) (c : Commit) : Except StoreError Unit × FaultyStore σ :=
  let number := store.commits + 1
  let counted := { store with commits := number }
  if store.plan.failCommits.contains number then (.error (.io "commit refused"), counted)
  else if store.plan.conflictCommits.contains number then
    (.error (.conflict c.header.id c.expected (c.expected + conflictLead)), counted)
  else
    let (result, inner) := ExecutionStore.commit store.inner c
    (result, { counted with inner })

instance : ExecutionStore (FaultyStore σ) where
  insert store header :=
    if store.plan.failInsert then (.error (.io "insert refused"), store)
    else
      let (result, inner) := ExecutionStore.insert store.inner header
      (result, { store with inner })
  commit := commit
  loadHeader store id :=
    if store.plan.failLoad then .error (.io "load refused")
    else ExecutionStore.loadHeader store.inner id
  loadCheckpoints store id start := ExecutionStore.loadCheckpoints store.inner id start
  list store workflowId := ExecutionStore.list store.inner workflowId
  latency store :=
    let number := store.commits + 1
    { before := (store.plan.slowWrite.lookup number).getD 0
      after := (store.plan.slowAck.lookup number).getD 0 }

end FaultyStore

end WorkflowEngine
