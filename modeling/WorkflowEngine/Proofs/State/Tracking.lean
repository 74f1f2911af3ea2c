import WorkflowEngine.Proofs.Session.Record
import WorkflowEngine.State.Operation

/-!
How a working copy stands to a record that others may move on. A copy tracks the record if it was read
from it, now or earlier: then it holds a first part of the log, and at the stored version all of it.
A commit that was made of such a copy takes effect at the version it was made from, or not at all, and
so the record only moves forward.
-/
namespace WorkflowEngine

namespace StoredExecution

/-- One commit later. -/
structure Next (before after : StoredExecution) : Prop where
  id : after.header.id = before.header.id
  version : after.header.version = before.header.version + 1
  log : ∃ appended : List Checkpoint, after.log = before.log ++ appended ∧ appended.length ≤ 1 ∧
    ∀ checkpoint ∈ appended, checkpoint.sequence = before.log.length
  count : after.header.checkpointCount = after.log.length
  final : before.header.status = .completed → after.header.status = .completed

theorem Next.prefix {before after : StoredExecution} (h : before.Next after) :
    before.log <+: after.log := by
  obtain ⟨appended, hlog, -⟩ := h.log
  exact ⟨appended, hlog.symm⟩

theorem Next.numbered {before after : StoredExecution} (h : before.Next after)
    (hnumbered : before.Numbered) : after.Numbered := by
  obtain ⟨appended, hlog, hone, hsequence⟩ := h.log
  refine ⟨h.count, ?_⟩
  rw [hlog]
  match appended, hone with
  | [], _ => simpa using hnumbered.sequences
  | [checkpoint], _ =>
      have hplace : checkpoint.sequence = before.log.length := hsequence checkpoint (by simp)
      simp [hnumbered.sequences, hplace, List.range_succ]

end StoredExecution

/-- What one step makes of the records: nothing, a new one, or the next of one. -/
inductive Grows (stored : ExecutionId → Option StoredExecution) :
    (ExecutionId → Option StoredExecution) → Prop
  | same : Grows stored stored
  | created {header : ExecutionHeader} (habsent : stored header.id = none)
      (hcount : header.checkpointCount = 0) :
      Grows stored (Function.update stored header.id (some ⟨header, []⟩))
  | committed {id : ExecutionId} {before after : StoredExecution} (hbefore : stored id = some before)
      (hnext : before.Next after) : Grows stored (Function.update stored id (some after))

namespace Grows

variable {stored later : ExecutionId → Option StoredExecution}

theorem onward (h : Grows stored later) {id : ExecutionId} {execution : StoredExecution}
    (hstored : stored id = some execution) :
    ∃ execution', later id = some execution' ∧ (execution' = execution ∨ execution.Next execution') := by
  cases h with
  | same => exact ⟨execution, hstored, Or.inl rfl⟩
  | @created header habsent =>
      have hid : id ≠ header.id := by
        rintro rfl
        cases habsent.symm.trans hstored
      exact ⟨execution, (Function.update_of_ne hid _ _).trans hstored, Or.inl rfl⟩
  | @committed other before after hbefore hnext =>
      by_cases hid : id = other
      · subst hid
        obtain rfl : execution = before := Option.some.inj (hstored.symm.trans hbefore)
        exact ⟨after, Function.update_self .., Or.inr hnext⟩
      · exact ⟨execution, (Function.update_of_ne hid _ _).trans hstored, Or.inl rfl⟩

theorem numbered (h : Grows stored later)
    (hnumbered : ∀ id execution, stored id = some execution → execution.Numbered)
    {id : ExecutionId} {execution : StoredExecution} (hlater : later id = some execution) :
    execution.Numbered := by
  cases hstored : stored id with
  | some before =>
      obtain ⟨after, hafter, hnext⟩ := h.onward hstored
      obtain rfl : execution = after := Option.some.inj (hlater.symm.trans hafter)
      rcases hnext with rfl | hnext
      · exact hnumbered id _ hstored
      · exact hnext.numbered (hnumbered id before hstored)
  | none =>
      cases h with
      | same => cases hstored.symm.trans hlater
      | @created header _ hcount =>
          by_cases hid : id = header.id
          · subst hid
            rw [Function.update_self] at hlater
            obtain rfl := Option.some.inj hlater
            exact ⟨hcount, rfl⟩
          · rw [Function.update_of_ne hid] at hlater
            cases hstored.symm.trans hlater
      | @committed other _ _ hbefore =>
          have hid : id ≠ other := by
            rintro rfl
            cases hstored.symm.trans hbefore
          rw [Function.update_of_ne hid] at hlater
          cases hstored.symm.trans hlater

end Grows

namespace ExecutionState

/-- A change in memory: neither version nor log are touched, and completed stays completed. -/
structure Edit (before after : ExecutionState) : Prop where
  id : after.header.id = before.header.id
  version : after.header.version = before.header.version
  count : after.header.checkpointCount = before.header.checkpointCount
  log : after.checkpoints = before.checkpoints
  final : before.header.status = .completed → after.header.status = .completed

/-- The working copy was read from the record, or from an earlier state of it. -/
structure Tracks (state : ExecutionState) (execution : StoredExecution) : Prop where
  id : state.header.id = execution.header.id
  version : state.header.version ≤ execution.header.version
  count : state.header.checkpointCount = state.checkpoints.length
  log : state.checkpoints <+: execution.log
  level : state.header.version = execution.header.version →
    state.checkpoints = execution.log ∧
      (execution.header.status = .completed → state.header.status = .completed)

variable {state state' : ExecutionState} {execution execution' : StoredExecution}

theorem setStatus_edit {status : ExecutionStatus} (h : state.setStatus status = .ok state') :
    state.Edit state' := by
  obtain ⟨hlegal, rfl⟩ := setStatus_ok h
  refine ⟨rfl, rfl, rfl, rfl, ?_⟩
  intro hcompleted
  have hstatus : state.status = .completed := hcompleted
  rw [hstatus] at hlegal
  cases status <;> cases hlegal

theorem complete_edit (h : state.complete = .ok state') : state.Edit state' := by
  obtain ⟨-, rfl⟩ := complete_ok h
  exact ⟨rfl, rfl, rfl, rfl, fun _ => rfl⟩

theorem fail_edit {message : String} (h : state.fail message = .ok state') : state.Edit state' := by
  obtain ⟨hlegal, rfl⟩ := fail_ok h
  refine ⟨rfl, rfl, rfl, rfl, ?_⟩
  intro hcompleted
  have hstatus : state.status = .completed := hcompleted
  rw [hstatus] at hlegal
  cases hlegal

theorem Tracks.edit (h : state.Tracks execution) (hedit : state.Edit state') :
    state'.Tracks execution := by
  refine ⟨hedit.id.trans h.id, hedit.version ▸ h.version, ?_, hedit.log ▸ h.log, ?_⟩
  · rw [hedit.count, hedit.log]
    exact h.count
  · intro hversion
    rw [hedit.version] at hversion
    rw [hedit.log]
    exact ⟨(h.level hversion).1, fun hfinal => hedit.final ((h.level hversion).2 hfinal)⟩

theorem Tracks.next (h : state.Tracks execution) (hnext : execution.Next execution') :
    state.Tracks execution' := by
  refine ⟨h.id.trans hnext.id.symm, ?_, h.count, h.log.trans hnext.prefix, ?_⟩
  · rw [hnext.version]
    exact Nat.le_succ_of_le h.version
  · intro hversion
    rw [hnext.version] at hversion
    have hbehind := h.version
    omega

/-- The working copy a header stands for, once the log has been read. -/
def read (header : ExecutionHeader) (execution : StoredExecution) : ExecutionState :=
  .ofRecord (ExecutionStore.assemble header execution.log)

theorem tracks_read (hnumbered : execution.Numbered) :
    (read execution.header execution).Tracks execution := by
  have hlog : (read execution.header execution).checkpoints = execution.log := by
    simp [read, ofRecord, ExecutionStore.assemble, hnumbered.count]
  refine ⟨rfl, Nat.le_refl _, ?_, ?_, fun _ => ⟨hlog, fun hcompleted => hcompleted⟩⟩
  · rw [hlog]
    exact hnumbered.count
  · exact hlog ▸ List.prefix_rfl

/-- What is read of a log later on is the same, since the log only grows. -/
theorem read_next {header : ExecutionHeader} (h : (read header execution).Tracks execution)
    (hnext : execution.Next execution') : read header execution' = read header execution := by
  obtain ⟨appended, hlog, -⟩ := hnext.log
  have hcount : header.checkpointCount ≤ execution.log.length := by
    have hlength := h.count
    simp only [read, ofRecord, ExecutionStore.assemble, List.length_take] at hlength
    omega
  unfold read ExecutionStore.assemble
  rw [hlog, List.take_append_of_le_length hcount]

theorem Tracks.adopt_eq (h : state.Tracks execution) (hnumbered : execution.Numbered)
    {header : ExecutionHeader} (hcount : state.header.checkpointCount ≤ header.checkpointCount) :
    state.adopt header
        (execution.log.filter (state.header.checkpointCount ≤ ·.sequence)) =
      read header execution :=
  ExecutionState.adopt_eq h.count h.log hnumbered hcount

end ExecutionState

namespace Commit

/-- A commit made of the working copy, whatever was changed in memory since. -/
structure Based (commit : Commit) (state : ExecutionState) : Prop where
  id : commit.header.id = state.header.id
  expected : commit.expected = state.header.version
  version : commit.header.version = state.header.version + 1
  count : commit.header.checkpointCount = state.header.checkpointCount + commit.appended.length

/-- A commit made of the working copy as it is. -/
structure Stems (commit : Commit) (state : ExecutionState) : Prop extends Based commit state where
  one : commit.appended.length ≤ 1
  sequence : ∀ checkpoint ∈ commit.appended, checkpoint.sequence = state.header.checkpointCount
  final : state.header.status = .completed → commit.header.status = .completed

/-- A commit that takes effect now, if it does, moves the record forward. -/
def Suits (commit : Commit) (execution : StoredExecution) : Prop :=
  commit.expected ≤ execution.header.version ∧
    (commit.expected = execution.header.version → execution.Next (execution.extend commit))

variable {commit : Commit} {state state' : ExecutionState} {execution execution' : StoredExecution}

theorem stems_commit {checkpoint : Option Checkpoint} (time : Timestamp)
    (h : ∀ c, checkpoint = some c → c.sequence = state.header.checkpointCount) :
    (state.commit checkpoint time).Stems state := by
  refine ⟨⟨rfl, rfl, rfl, rfl⟩, ?_, ?_, fun hcompleted => hcompleted⟩
  · cases checkpoint <;> simp [ExecutionState.commit]
  · intro c hc
    exact h c (by simpa [ExecutionState.commit] using hc)

theorem Based.edit (h : commit.Based state) (hedit : state.Edit state') : commit.Based state' :=
  ⟨h.id.trans hedit.id.symm, h.expected.trans hedit.version.symm,
    h.version.trans (congrArg (· + 1) hedit.version.symm), by rw [hedit.count]; exact h.count⟩

theorem Stems.suits (h : commit.Stems state) (htracks : state.Tracks execution) :
    commit.Suits execution := by
  refine ⟨h.expected ▸ htracks.version, ?_⟩
  intro hversion
  rw [h.expected] at hversion
  obtain ⟨hlog, hfinal⟩ := htracks.level hversion
  have hlength : state.header.checkpointCount = execution.log.length := by
    rw [htracks.count, hlog]
  refine ⟨h.id.trans htracks.id, h.version.trans (congrArg (· + 1) hversion),
    ⟨commit.appended, rfl, h.one, ?_⟩, ?_, fun hcompleted => h.final (hfinal hcompleted)⟩
  · intro checkpoint hcheckpoint
    rw [h.sequence checkpoint hcheckpoint, hlength]
  · change commit.header.checkpointCount = (execution.log ++ commit.appended).length
    rw [h.count, hlength, List.length_append]

theorem Suits.next (h : commit.Suits execution) (hnext : execution.Next execution') :
    commit.Suits execution' := by
  obtain ⟨hbehind, -⟩ := h
  have hversion := hnext.version
  exact ⟨by omega, fun hexpected => by omega⟩

/-- Where a commit has taken effect, its working copy holds the whole log. -/
theorem Based.whole (h : commit.Based state) (htracks : state.Tracks execution)
    (hexpected : execution.header.version = commit.expected) :
    execution.extend commit = ⟨commit.header, (state.committed commit).checkpoints⟩ := by
  have hlevel := htracks.level (h.expected.symm.trans hexpected.symm)
  unfold StoredExecution.extend ExecutionState.committed
  rw [hlevel.1]

theorem Based.tracks (h : commit.Based state) (htracks : state.Tracks execution)
    (hexpected : execution.header.version = commit.expected) :
    (state.committed commit).Tracks (execution.extend commit) := by
  have hwhole := h.whole htracks hexpected
  refine ⟨rfl, Nat.le_refl _, ?_, ?_, fun _ => ⟨?_, fun hcompleted => hcompleted⟩⟩
  · change commit.header.checkpointCount = (state.checkpoints ++ commit.appended).length
    rw [h.count, htracks.count, List.length_append]
  · exact hwhole ▸ List.prefix_rfl
  · rw [hwhole]

end Commit

namespace StateOperation

variable {σ : Type}

/-- An operation changes the copy in memory, and asks for a checkpoint at the end of its log. -/
theorem prepare_cases (operation : StateOperation) (handle : Handle) (host : Host σ) :
    (operation.prepare handle host).2.store = host.store ∧
      ((∃ cause, (operation.prepare handle host).1 = .error cause) ∨
        ∃ demand state, (operation.prepare handle host).1 = .ok (demand, { handle with state }) ∧
          handle.state.Edit state ∧
          ∀ checkpoint, demand = .commit (some checkpoint) →
            checkpoint.sequence = handle.state.header.checkpointCount) := by
  have hsame : ∀ {state : ExecutionState} {demand : Demand},
      handle.state.Edit state → (∀ checkpoint, demand ≠ .commit (some checkpoint)) →
      (∃ cause, (Except.ok (demand, { handle with state }) : Except EngineError _) = .error cause) ∨
        ∃ demand' state', (Except.ok (demand, { handle with state }) : Except EngineError _) =
            .ok (demand', { handle with state := state' }) ∧ handle.state.Edit state' ∧
          ∀ checkpoint, demand' = .commit (some checkpoint) →
            checkpoint.sequence = handle.state.header.checkpointCount :=
    fun hedit hnone => Or.inr ⟨_, _, rfl, hedit, fun c hc => absurd hc (hnone c)⟩
  cases operation with
  | updateContext update | setContext context | incrementStep | discard =>
      exact ⟨rfl, hsame ⟨rfl, rfl, rfl, rfl, id⟩ (by simp)⟩
  | save => exact ⟨rfl, @hsame handle.state _ ⟨rfl, rfl, rfl, rfl, id⟩ (by simp)⟩
  | checkpoint nodeId name pending =>
      refine ⟨rfl, Or.inr ⟨_, handle.state, rfl, ⟨rfl, rfl, rfl, rfl, id⟩, ?_⟩⟩
      rintro _ ⟨⟩
      rfl
  | setStatus status =>
      refine ⟨rfl, ?_⟩
      simp only [prepare]
      cases hstatus : handle.state.setStatus status with
      | error cause => exact Or.inl ⟨cause, rfl⟩
      | ok state => exact hsame (ExecutionState.setStatus_edit hstatus) (by simp)
  | markCompleted =>
      refine ⟨rfl, ?_⟩
      simp only [prepare]
      cases hcomplete : handle.state.complete with
      | error cause => exact Or.inl ⟨cause, rfl⟩
      | ok state => exact hsame (ExecutionState.complete_edit hcomplete) (by simp)
  | markFailed error =>
      refine ⟨rfl, ?_⟩
      simp only [prepare]
      cases hfail : handle.state.fail error with
      | error cause => exact Or.inl ⟨cause, rfl⟩
      | ok state => exact hsame (ExecutionState.fail_edit hfail) (by simp)
  | errorCheckpoint nodeId name pending error =>
      refine ⟨rfl, ?_⟩
      simp only [prepare]
      cases hfail : handle.state.fail error with
      | error cause => exact Or.inl ⟨cause, rfl⟩
      | ok state =>
          refine Or.inr ⟨_, state, rfl, ExecutionState.fail_edit hfail, ?_⟩
          rintro _ ⟨⟩
          rfl

end StateOperation

end WorkflowEngine
