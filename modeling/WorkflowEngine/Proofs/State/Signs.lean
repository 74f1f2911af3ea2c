import WorkflowEngine.Proofs.State.Tracking
import WorkflowEngine.Proofs.Store.Holding

/-!
Files do not keep the sign of a zero, and no comparison tells zeros apart. Records, working copies and
commits are looked at here with these signs taken off: whatever decides about a commit is the same with
them and without.
-/
namespace WorkflowEngine

theorem Checkpoint.map_sequence_unsigned (log : List Checkpoint) :
    (log.map (·.unsigned)).map (·.sequence) = log.map (·.sequence) :=
  List.map_map

def Commit.unsigned (commit : Commit) : Commit where
  header := commit.header.unsigned
  appended := commit.appended.map (·.unsigned)
  expected := commit.expected

namespace StoredExecution

variable {execution : StoredExecution}

def unsigned (execution : StoredExecution) : StoredExecution :=
  ⟨execution.header.unsigned, execution.log.map (·.unsigned)⟩

theorem unsigned_extend (execution : StoredExecution) (commit : Commit) :
    (execution.extend commit).unsigned = execution.unsigned.extend commit.unsigned := by
  unfold unsigned extend Commit.unsigned
  rw [List.map_append]

theorem numbered_unsigned : execution.unsigned.Numbered ↔ execution.Numbered := by
  have hlength : execution.unsigned.log.length = execution.log.length := List.length_map ..
  have hsequences : execution.unsigned.log.map (·.sequence) = execution.log.map (·.sequence) :=
    Checkpoint.map_sequence_unsigned execution.log
  have hheader : execution.unsigned.header.checkpointCount = execution.header.checkpointCount := rfl
  constructor
  · rintro ⟨hcount, hnumbers⟩
    rw [hheader, hlength] at hcount
    rw [hsequences, hlength] at hnumbers
    exact ⟨hcount, hnumbers⟩
  · rintro ⟨hcount, hnumbers⟩
    constructor
    · rw [hheader, hlength]
      exact hcount
    · rw [hsequences, hlength]
      exact hnumbers

end StoredExecution

namespace ExecutionState

variable {state state' : ExecutionState}

def unsigned (state : ExecutionState) : ExecutionState where
  header := state.header.unsigned
  checkpoints := state.checkpoints.map (·.unsigned)
  durableContext := state.durableContext.unsigned
  durableStep := state.durableStep

theorem unsigned_snapshot (state : ExecutionState) :
    state.unsigned.snapshot = state.snapshot.unsigned := rfl

theorem unsigned_committed (state : ExecutionState) (commit : Commit) :
    (state.committed commit).unsigned = state.unsigned.committed commit.unsigned := by
  unfold committed unsigned Commit.unsigned
  rw [List.map_append]
  rfl

theorem Edit.unsigned (h : state.Edit state') : state.unsigned.Edit state'.unsigned :=
  ⟨h.id, h.version, h.count, congrArg (List.map Checkpoint.unsigned) h.log, h.final⟩

end ExecutionState

theorem Commit.Stems.unsigned {commit : Commit} {state : ExecutionState} (h : commit.Stems state) :
    commit.unsigned.Stems state.unsigned := by
  have hlength : commit.unsigned.appended.length = commit.appended.length := List.length_map ..
  constructor
  · refine ⟨h.id, h.expected, h.version, ?_⟩
    rw [hlength]
    exact h.count
  · rw [hlength]
    exact h.one
  · intro checkpoint hcheckpoint
    obtain ⟨appended, hmem, rfl⟩ := List.mem_map.mp hcheckpoint
    exact h.sequence appended hmem
  · exact h.final

end WorkflowEngine
