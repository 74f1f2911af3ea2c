import WorkflowEngine.Proofs.State.Reading
import WorkflowEngine.Proofs.Store.Mirror

/-!
Records that handles write in files. What a handle asks for moves its record forward by one commit; from
then on the record as it was at any time is a first part of what it is, and whoever read it stands to it
as before. Signs of zeros are taken off where a working copy is compared with its record.
-/
namespace WorkflowEngine

namespace StoreCall

/-- The records once a call has taken effect. -/
def land (call : StoreCall) (records : ExecutionId → Option StoredExecution) :
    ExecutionId → Option StoredExecution :=
  match call.outcome (records call.id) with
  | .ok execution => Function.update records call.id (some execution)
  | .error _ => records

/-- What a handle asks of the store, with the working copy it has when the store has agreed: a new
execution, or a commit of one of the working copies. -/
inductive Asked (copies : List ExecutionState) : StoreCall → ExecutionState → Prop
  | create {header : ExecutionHeader} (id : ExecutionId) (workflowId : WorkflowId) (userId : String)
      (context : Context) (totalSteps : Nat) (now : Timestamp)
      (hheader : header = ExecutionState.newHeader id workflowId userId context totalSteps now) :
      Asked copies (.insert header) (.ofRecord ⟨header, []⟩)
  | commit {state : ExecutionState} (hmem : state ∈ copies) (operation : StateOperation)
      (host : Host FileStore) {checkpoint : Option Checkpoint} {handle : Handle} {made : Commit}
      (hprepare : (operation.prepare { state } host).1 = .ok (.commit checkpoint, handle))
      (now : Timestamp) (hmade : made = handle.state.commit checkpoint now) :
      Asked copies (.commit made) (handle.state.committed made)

end StoreCall

/-- A copy that is reconciled has the first checkpoints of the log, as many as its header counts. -/
def Reading.Apt (records : ExecutionId → Option StoredExecution) : Reading → Prop
  | .load _ => True
  | .reconcile state => ∃ execution, records state.id = some execution ∧
      (Reading.reconcile state.unsigned).Fits execution.unsigned.log

/-- A working copy was read from the record, now or earlier. -/
def ExecutionState.Tracked (records : ExecutionId → Option StoredExecution) (state : ExecutionState) :
    Prop :=
  ∃ execution, records state.header.id = some execution ∧ state.unsigned.Tracks execution.unsigned

/-- What happens to a record in the course of time. -/
structure StoredExecution.Onward (before after : StoredExecution) : Prop where
  log : before.log <+: after.log
  next : before.unsigned.Next after.unsigned

/-- What a call makes of a record, and what its caller has then. -/
structure StoreCall.Makes (call : StoreCall) (copy : ExecutionState) (before : Option StoredExecution)
    (after : StoredExecution) : Prop where
  id : copy.header.id = call.id
  tracks : copy.unsigned.Tracks after.unsigned
  numbered : after.Numbered
  onward : ∀ old ∈ before, old.Onward after

namespace StoreCall

variable {call : StoreCall} {copy : ExecutionState} {copies : List ExecutionState}
  {records : ExecutionId → Option StoredExecution} {after : StoredExecution}

theorem outcome_header (h : call.outcome (records call.id) = .ok after) :
    after.header.id = call.id := by
  rw [outcome_ok h]
  rfl

/-- What handles ask for moves records forward. -/
theorem Asked.makes (h : call.Asked copies copy) (hcopies : ∀ copy ∈ copies, copy.Tracked records)
    (hnumbered : ∀ execution ∈ records call.id, execution.Numbered)
    (houtcome : call.outcome (records call.id) = .ok after) :
    call.Makes copy (records call.id) after := by
  cases h with
  | create id workflowId userId context totalSteps now hheader =>
      obtain ⟨hnone, rfl⟩ := insert_ok houtcome
      have hnew : StoredExecution.Numbered ⟨_, []⟩ := ⟨congrArg (·.checkpointCount) hheader, rfl⟩
      have hunsigned := StoredExecution.numbered_unsigned.mpr hnew
      refine ⟨rfl, ?_, hnew, ?_⟩
      · have htracks := ExecutionState.tracks_read hunsigned
        rwa [ExecutionState.read, hunsigned.assemble] at htracks
      · rw [hnone]
        simp
  | @commit state hmem operation host checkpoint handle made hprepare now hmade =>
      obtain ⟨before, hbefore, hversion, rfl⟩ := commit_ok houtcome
      obtain ⟨-, hcases⟩ := operation.prepare_cases { state } host
      obtain ⟨cause, hcause⟩ | ⟨demand, state', hdemand, hedit, hsequence⟩ := hcases
      · cases hprepare.symm.trans hcause
      · obtain ⟨rfl, rfl⟩ : .commit checkpoint = demand ∧ handle = { state := state' } := by
          simpa using hprepare.symm.trans hdemand
        have hstems : made.Stems state' := by
          rw [hmade]
          apply Commit.stems_commit
          intro c hc
          rw [hsequence c (by rw [hc]), hedit.count]
        obtain ⟨execution, hstored, htracks⟩ := hcopies state hmem
        have hid : made.header.id = state.header.id := hstems.id.trans hedit.id
        obtain rfl : execution = before := by
          rw [← hid] at hstored
          exact Option.some.inj (hstored.symm.trans hbefore)
        have htracks := htracks.edit hedit.unsigned
        have hsuits := hstems.unsigned.suits htracks
        have hafter : (StoredExecution.mk made.header (execution.log ++ made.appended)).unsigned =
            execution.unsigned.extend made.unsigned := execution.unsigned_extend made
        have hnext := hsuits.2 hversion.symm
        rw [← hafter] at hnext
        refine ⟨rfl, ?_, ?_, ?_⟩
        · rw [ExecutionState.unsigned_committed, hafter]
          exact hstems.unsigned.toBased.tracks htracks hversion
        · have hbefore := StoredExecution.numbered_unsigned.mpr (hnumbered execution hbefore)
          exact StoredExecution.numbered_unsigned.mp (hnext.numbered hbefore)
        · intro old hold
          obtain rfl := Option.some.inj (hbefore.symm.trans hold)
          exact ⟨List.prefix_append _ _, hnext⟩

end StoreCall

/-- The record as it was at one time, and now. -/
structure StoredExecution.Precedes (before now : StoredExecution) : Prop where
  log : before.log <+: now.log
  tracks : before.unsigned.state.Tracks now.unsigned

theorem StoredExecution.Precedes.refl {execution : StoredExecution} (h : execution.Numbered) :
    execution.Precedes execution := by
  have hunsigned := numbered_unsigned.mpr h
  have htracks := ExecutionState.tracks_read hunsigned
  rw [ExecutionState.read, hunsigned.assemble] at htracks
  exact ⟨List.prefix_rfl, htracks⟩

theorem StoredExecution.Precedes.onward {before now after : StoredExecution} (h : before.Precedes now)
    (honward : now.Onward after) : before.Precedes after :=
  ⟨h.log.trans honward.log, h.tracks.next honward.next⟩

/-- Every record is as it was, or has gone on. -/
def Carries (records later : ExecutionId → Option StoredExecution) : Prop :=
  ∀ id execution, records id = some execution →
    ∃ after, later id = some after ∧ (after = execution ∨ execution.Onward after)

namespace Carries

variable {records later : ExecutionId → Option StoredExecution}

theorem refl (records : ExecutionId → Option StoredExecution) : Carries records records :=
  fun _ execution h => ⟨execution, h, Or.inl rfl⟩

theorem tracked (h : Carries records later) {state : ExecutionState} (htracked : state.Tracked records) :
    state.Tracked later := by
  obtain ⟨execution, hstored, htracks⟩ := htracked
  obtain ⟨after, hafter, rfl | honward⟩ := h _ _ hstored
  · exact ⟨_, hafter, htracks⟩
  · exact ⟨after, hafter, htracks.next honward.next⟩

theorem apt (h : Carries records later) {reading : Reading} (hapt : reading.Apt records) :
    reading.Apt later := by
  cases reading with
  | load id => trivial
  | reconcile state =>
      obtain ⟨execution, hstored, hcount, hchecks⟩ := hapt
      obtain ⟨after, hafter, rfl | honward⟩ := h _ _ hstored
      · exact ⟨_, hafter, hcount, hchecks⟩
      · exact ⟨after, hafter, hcount, hchecks.trans (honward.log.map _)⟩

/-- A call that takes effect moves its record forward and leaves the others. -/
theorem land {call : StoreCall} {copy : ExecutionState} {after : StoredExecution}
    (hmakes : call.Makes copy (records call.id) after) :
    Carries records (Function.update records call.id (some after)) := by
  intro id execution hstored
  by_cases hid : id = call.id
  · subst hid
    exact ⟨after, Function.update_self .., Or.inr (hmakes.onward execution hstored)⟩
  · exact ⟨execution, (Function.update_of_ne hid ..).trans hstored, Or.inl rfl⟩

end Carries

/-- Records that handles have written, each under its own id. -/
structure Orders (records : ExecutionId → Option StoredExecution) : Prop where
  id : ∀ id execution, records id = some execution → execution.header.id = id
  numbered : ∀ id execution, records id = some execution → execution.Numbered

theorem Orders.land {records : ExecutionId → Option StoredExecution} (h : Orders records)
    {call : StoreCall} {copy : ExecutionState} {after : StoredExecution}
    (houtcome : call.outcome (records call.id) = .ok after)
    (hmakes : call.Makes copy (records call.id) after) :
    Orders (Function.update records call.id (some after)) := by
  constructor
  · intro id execution hstored
    by_cases hid : id = call.id
    · subst hid
      rw [Function.update_self] at hstored
      obtain rfl := Option.some.inj hstored
      exact StoreCall.outcome_header houtcome
    · rw [Function.update_of_ne hid] at hstored
      exact h.id id execution hstored
  · intro id execution hstored
    by_cases hid : id = call.id
    · subst hid
      rw [Function.update_self] at hstored
      obtain rfl := Option.some.inj hstored
      exact hmakes.numbered
    · rw [Function.update_of_ne hid] at hstored
      exact h.numbered id execution hstored

end WorkflowEngine
