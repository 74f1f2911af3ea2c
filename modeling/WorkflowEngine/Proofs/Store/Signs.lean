import WorkflowEngine.Proofs.State.Signs
import WorkflowEngine.Proofs.Value.Signs
import WorkflowEngine.Store.Fault

/-!
# Stores that take no notice of the signs of zeros

What is left of a store without the signs of zeros answers what is left of a write as the store answers
the write. Files keep no such sign in the first place; memory keeps them, but decides by nothing that
has one.
-/
namespace WorkflowEngine

/-- A store whose records are told without the signs of zeros. -/
structure Muted (σ : Type) where
  store : σ

instance {σ : Type} [ExecutionStore σ] : ExecutionStore (Muted σ) where
  insert muted header := (ExecutionStore.insert muted.store header).map id Muted.mk
  commit muted c := (ExecutionStore.commit muted.store c).map id Muted.mk
  loadHeader muted id := (ExecutionStore.loadHeader muted.store id).map (·.map (·.unsigned))
  loadCheckpoints muted id start :=
    (ExecutionStore.loadCheckpoints muted.store id start).map (·.map (·.unsigned))
  list muted workflowId := (ExecutionStore.list muted.store workflowId).map (·.map (·.unsigned))
  latency muted := ExecutionStore.latency muted.store

class BlindStore (σ : Type) [ExecutionStore σ] where
  /-- What is left of a store without the signs of zeros. -/
  unsigned : σ → σ
  insert : ∀ store header, ExecutionStore.insert (unsigned store) header.unsigned =
    (ExecutionStore.insert store header).map id unsigned
  commit : ∀ store c, ExecutionStore.commit (unsigned store) (Commit.unsigned c) =
    (ExecutionStore.commit store c).map id unsigned
  loadHeader : ∀ store id,
    (ExecutionStore.loadHeader (unsigned store) id).map (·.map (·.unsigned)) =
      (ExecutionStore.loadHeader store id).map (·.map (·.unsigned))
  loadCheckpoints : ∀ store id start,
    (ExecutionStore.loadCheckpoints (unsigned store) id start).map (·.map (·.unsigned)) =
      (ExecutionStore.loadCheckpoints store id start).map (·.map (·.unsigned))
  latency : ∀ store, ExecutionStore.latency (unsigned store) = ExecutionStore.latency store

namespace MemoryStore

/-- The executions without the signs of zeros. -/
def unsigned (store : MemoryStore) : MemoryStore := ⟨store.executions.map (·.unsigned)⟩

variable (store : MemoryStore)

theorem find?_unsigned (id : ExecutionId) :
    store.unsigned.find? id = (store.find? id).map (·.unsigned) := by
  rw [find?, unsigned, List.find?_map]
  rfl

theorem insert_unsigned (header : ExecutionHeader) :
    store.unsigned.insert header.unsigned = (store.insert header).map id unsigned := by
  unfold insert
  rw [show header.unsigned.id = header.id from rfl, find?_unsigned]
  cases store.find? header.id with
  | some before => rfl
  | none =>
    have after : store.unsigned.executions ++ [⟨header.unsigned, []⟩] =
        (store.executions ++ [StoredExecution.mk header []]).map (·.unsigned) := by
      rw [List.map_append]
      rfl
    exact congrArg (fun executions => (Except.ok (), MemoryStore.mk executions)) after

theorem update_unsigned (id : ExecutionId) (e : StoredExecution) :
    store.unsigned.update id e.unsigned = (store.update id e).unsigned := by
  simp only [update, unsigned, List.map_map]
  refine congrArg MemoryStore.mk (List.map_congr_left fun old _ => ?_)
  exact (apply_ite StoredExecution.unsigned _ e old).symm

theorem commit_unsigned (c : Commit) :
    store.unsigned.commit c.unsigned = (store.commit c).map id unsigned := by
  unfold commit
  rw [show c.unsigned.header.id = c.header.id from rfl, find?_unsigned]
  cases store.find? c.header.id with
  | none => rfl
  | some before =>
    have after : (StoredExecution.mk c.header (before.log ++ c.appended)).unsigned =
        ⟨c.unsigned.header, before.unsigned.log ++ c.unsigned.appended⟩ :=
      congrArg (StoredExecution.mk c.header.unsigned) List.map_append
    have check : before.unsigned.header.checkVersion c.unsigned.expected =
        before.header.checkVersion c.expected := rfl
    simp only [Option.map_some, check, ← after, update_unsigned]
    cases before.header.checkVersion c.expected <;> rfl

instance : BlindStore MemoryStore where
  unsigned := unsigned
  insert := insert_unsigned
  commit := commit_unsigned
  loadHeader store id := by
    change Except.ok (((store.unsigned.find? id).map (·.header)).map (·.unsigned)) =
      .ok (((store.find? id).map (·.header)).map (·.unsigned))
    rw [find?_unsigned]
    cases store.find? id with
    | none => rfl
    | some e => exact congrArg (Except.ok ∘ some) e.header.unsigned_unsigned
  loadCheckpoints store id start := by
    change (store.unsigned.loadCheckpoints id start).map _ = (store.loadCheckpoints id start).map _
    unfold loadCheckpoints
    rw [find?_unsigned]
    cases store.find? id with
    | none => rfl
    | some e =>
      refine congrArg Except.ok ?_
      change ((e.log.map (·.unsigned)).filter _).map _ = _
      rw [List.filter_map, List.map_map]
      exact List.map_congr_left fun c _ => c.unsigned_unsigned
  latency _ := rfl

end MemoryStore

theorem Checkpoint.toJson_unsigned (c : Checkpoint) : c.unsigned.toJson = c.toJson := by
  unfold toJson
  rw [show c.unsigned.context = c.context.unsigned from rfl, Context.toJson_unsigned]
  rfl

theorem ExecutionHeader.entries_unsigned (h : ExecutionHeader) : h.unsigned.entries = h.entries := by
  unfold entries
  rw [show h.unsigned.context = h.context.unsigned from rfl, Context.toJson_unsigned]
  rfl

namespace FileStore

theorem encode_unsigned (header : ExecutionHeader) (logBytes : Nat) :
    StoredHeader.encode ⟨header.unsigned, logBytes⟩ = StoredHeader.encode ⟨header, logBytes⟩ := by
  simp only [StoredHeader.encode, StoredHeader.toJson, header.entries_unsigned]

theorem writeHeader_unsigned (root : Path) (header : ExecutionHeader) (logBytes : Nat) :
    writeHeader root ⟨header.unsigned, logBytes⟩ = writeHeader root ⟨header, logBytes⟩ := by
  unfold writeHeader
  rw [encode_unsigned]
  rfl

theorem insertProgram_unsigned (root : Path) (header : ExecutionHeader) :
    insertProgram root header.unsigned = insertProgram root header := by
  unfold insertProgram
  rw [writeHeader_unsigned]
  rfl

theorem commitProgram_unsigned (root : Path) (c : Commit) :
    commitProgram root c.unsigned = commitProgram root c := by
  have lines : c.unsigned.appended.flatMap line = c.appended.flatMap line := by
    rw [Commit.unsigned, List.flatMap_map]
    exact List.flatMap_congr fun checkpoint _ => by
      rw [line, line, checkpoint.toJson_unsigned]
  have none : c.unsigned.appended.isEmpty = c.appended.isEmpty := List.isEmpty_map
  unfold commitProgram
  rw [lines, none, show c.unsigned.header = c.header.unsigned from rfl]
  simp only [writeHeader_unsigned]
  rfl

/-- Files are left alone: they hold no sign of a zero that was written. -/
instance : BlindStore FileStore where
  unsigned := id
  insert store header := by
    change store.change (insertProgram store.root header.unsigned) = _
    rw [insertProgram_unsigned]
    rfl
  commit store c := by
    change store.change (commitProgram store.root c.unsigned) = _
    rw [commitProgram_unsigned]
    rfl
  loadHeader _ _ := rfl
  loadCheckpoints _ _ _ := rfl
  latency _ := rfl

end FileStore

instance : BlindStore AnyStore where
  unsigned
    | .memory s => .memory s.unsigned
    | .files s => .files s
  insert
    | .memory s, header => congrArg (Prod.map id AnyStore.memory) (s.insert_unsigned header)
    | .files s, header => congrArg (Prod.map id AnyStore.files) (BlindStore.insert s header)
  commit
    | .memory s, c => congrArg (Prod.map id AnyStore.memory) (s.commit_unsigned c)
    | .files s, c => congrArg (Prod.map id AnyStore.files) (BlindStore.commit s c)
  loadHeader
    | .memory s, id => BlindStore.loadHeader s id
    | .files _, _ => rfl
  loadCheckpoints
    | .memory s, id, start => BlindStore.loadCheckpoints s id start
    | .files _, _, _ => rfl
  latency _ := rfl

/-- What fails or takes its time is chosen by the number of a commit. -/
instance {σ : Type} [ExecutionStore σ] [BlindStore σ] : BlindStore (FaultyStore σ) where
  unsigned store := { store with inner := BlindStore.unsigned store.inner }
  insert store header := by
    change (if store.plan.failInsert then _ else _ : _ × FaultyStore σ) =
      Prod.map id _ (if store.plan.failInsert then _ else _)
    split
    · rfl
    · dsimp only
      rw [BlindStore.insert]
      rfl
  commit store c := by
    change FaultyStore.commit _ _ = Prod.map id _ (FaultyStore.commit store c)
    unfold FaultyStore.commit
    dsimp only
    split
    · rfl
    · split
      · rfl
      · rw [BlindStore.commit]
        rfl
  loadHeader store id := by
    change Except.map _ (if store.plan.failLoad then _ else _) =
      Except.map _ (if store.plan.failLoad then _ else _)
    split
    · rfl
    · exact BlindStore.loadHeader store.inner id
  loadCheckpoints store id start := BlindStore.loadCheckpoints store.inner id start
  latency _ := rfl

end WorkflowEngine
