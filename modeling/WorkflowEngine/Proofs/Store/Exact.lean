import WorkflowEngine.Proofs.Run.Over
import WorkflowEngine.Proofs.Store.Mirror

/-!
# Files in place of memory

Where nothing is lost in writing and reading, a store in files cannot be told from one in memory: reads
tell the same, and calls that write are answered alike and leave files that hold what memory holds.
-/
namespace WorkflowEngine

/-- Every record is read back as it was written. -/
def MemoryStore.Exact (memory : MemoryStore) : Prop :=
  ∀ id, ∀ e ∈ memory.find? id, e.Of Binary64.Exact ∧ e.Shallow

theorem StoredExecution.Of.mono {P Q : Binary64 → Prop} {e : StoredExecution} (imp : ∀ x, P x → Q x)
    (of : e.Of P) : e.Of Q where
  header := of.header.mono imp
  log c mem := (of.log c mem).mono imp
  length := of.length

theorem StoredExecution.Of.unsigned_log {e : StoredExecution} (exact : e.Of Binary64.Exact) :
    e.log.map (·.unsigned) = e.log :=
  (List.map_congr_left fun c mem => Checkpoint.unsigned_of_exact (exact.log c mem)).trans (List.map_id _)

namespace FileStore

/-- Files that hold exactly what memory holds. -/
structure Mirrors (memory : MemoryStore) (store : FileStore) : Prop where
  exact : memory.Exact
  holding : Holding store.root memory.find? store.files

namespace Mirrors

variable {memory : MemoryStore} {store : FileStore}

theorem tells (mirrors : Mirrors memory store) : Tells memory store where
  loadHeader id := by
    rw [show ExecutionStore.loadHeader store id = _ from mirrors.holding.loadHeader id]
    change _ = Except.ok ((memory.find? id).map (·.header))
    cases found : memory.find? id with
    | none => rfl
    | some e =>
      obtain ⟨exact, shallow⟩ := mirrors.exact id e found
      dsimp only
      rw [if_pos shallow.header, ExecutionHeader.unsigned_of_exact exact.header]
      rfl
  loadCheckpoints id start := by
    rw [show ExecutionStore.loadCheckpoints store id start = _ from
      mirrors.holding.loadCheckpoints id start]
    change _ = memory.loadCheckpoints id start
    rw [MemoryStore.loadCheckpoints]
    cases found : memory.find? id with
    | none => rfl
    | some e =>
      obtain ⟨exact, shallow⟩ := mirrors.exact id e found
      dsimp only
      rw [if_pos shallow, exact.unsigned_log]
  latency := rfl

/-- Files answer a call that writes as memory does, and go on to hold what memory holds. -/
theorem perform {call : StoreCall} (mirrors : Mirrors memory store)
    (exact : (call.perform memory).2.Exact) :
    (call.perform store).1 = (call.perform memory).1 ∧
      Mirrors (call.perform memory).2 (call.perform store).2 := by
  have legible (e : StoredExecution) (accepted : call.outcome (memory.find? call.id) = .ok e) :
      e.Of Binary64.Legible := by
    obtain ⟨-, found⟩ := MemoryStore.perform_ok accepted
    have new := (exact call.id e (by rw [found, Function.update_self]; rfl)).1
    exact new.mono fun _ exact => exact.1
  obtain ⟨answer, left, rest, holding⟩ :=
    mirrors.holding.goes_along (fun id e mem => (mirrors.exact id e mem).2) legible
  have rest : (call.perform store).2 = ⟨store.root, left⟩ := rest
  exact ⟨answer, exact, by rw [rest]; exact holding⟩

end Mirrors

end FileStore

end WorkflowEngine
