import WorkflowEngine.Proofs.Store.Holding
import WorkflowEngine.Proofs.Store.Lawful

/-!
# Files and memory

Files that hold what a store in memory holds answer as it does, as long as its records can be read back:
every read, but for the signs of zeros, and every call that writes, after which they hold again what
memory holds.
-/
namespace WorkflowEngine

namespace StoreCall

/-- Numbers with a property, in fields that have room for what they hold. -/
structure Of (P : Binary64 → Prop) (call : StoreCall) : Prop where
  header : call.header.Of P
  appended : ∀ c ∈ call.appended, c.Of P

theorem Of.mono {P Q : Binary64 → Prop} {call : StoreCall} (imp : ∀ x, P x → Q x) (of : call.Of P) :
    call.Of Q where
  header := of.header.mono imp
  appended c mem := (of.appended c mem).mono imp

/-- Contexts that can be read back. -/
structure Shallow (call : StoreCall) : Prop where
  header : call.header.context.Shallow
  appended : ∀ c ∈ call.appended, c.context.Shallow

/-- How much a call adds to a log. -/
def size (call : StoreCall) : Nat := (FileStore.logOf call.appended).length

variable {call : StoreCall} {record : Option StoredExecution} {e : StoredExecution}

/-- The record that an accepted call makes. -/
theorem outcome_ok (accepted : call.outcome record = .ok e) :
    e = ⟨call.header, record.elim [] (·.log) ++ call.appended⟩ := by
  cases call with
  | insert header =>
    obtain ⟨rfl, rfl⟩ := insert_ok accepted
    rfl
  | commit c =>
    obtain ⟨before, rfl, -, rfl⟩ := commit_ok accepted
    rfl

/-- Every checkpoint of an accepted record was there before or is appended. -/
theorem forall_log {Q : Checkpoint → Prop} (accepted : call.outcome record = .ok e)
    (before : ∀ old ∈ record, ∀ c ∈ old.log, Q c) (appended : ∀ c ∈ call.appended, Q c) :
    ∀ c ∈ e.log, Q c := by
  rw [outcome_ok accepted]
  intro c mem
  rcases List.mem_append.mp mem with mem | mem
  · cases record with
    | none => cases mem
    | some old => exact before old rfl c mem
  · exact appended c mem

theorem length_outcome {volume : Nat} (accepted : call.outcome record = .ok e)
    (before : ∀ old ∈ record, (FileStore.logOf old.log).length ≤ volume) :
    (FileStore.logOf e.log).length ≤ call.size + volume := by
  rw [outcome_ok accepted, FileStore.logOf_append, List.length_append, Nat.add_comm, size]
  apply Nat.add_le_add_left
  cases record with
  | none => exact Nat.zero_le _
  | some old => exact before old rfl

end StoreCall

namespace StoredExecution

variable {call : StoreCall} {record : Option StoredExecution} {e : StoredExecution}

/-- A record made of legible parts is legible. -/
theorem of_outcome {P : Binary64 → Prop} (accepted : call.outcome record = .ok e)
    (call_of : call.Of P) (before : ∀ old ∈ record, old.Of P)
    (length : (FileStore.logOf e.log).length < UInt64.size) : e.Of P where
  header := by
    rw [StoreCall.outcome_ok accepted]
    exact call_of.header
  log := StoreCall.forall_log accepted (fun old mem => (before old mem).log) call_of.appended
  length := length

theorem shallow_outcome (accepted : call.outcome record = .ok e) (shallow : call.Shallow)
    (before : ∀ old ∈ record, old.Shallow) : e.Shallow where
  header := by
    rw [StoreCall.outcome_ok accepted]
    exact shallow.header
  log := StoreCall.forall_log accepted (fun old mem => (before old mem).log) shallow.appended

end StoredExecution

namespace MemoryStore

variable {memory : MemoryStore} {call : StoreCall} {e : StoredExecution}

theorem perform_error {cause : StoreError}
    (refused : call.outcome (memory.find? call.id) = .error cause) :
    call.perform memory = (.error cause, memory) := by
  cases call with
  | insert header =>
    change memory.insert header = _
    rw [insert]
    cases found : memory.find? header.id with
    | none =>
      rw [show memory.find? (StoreCall.insert header).id = _ from found] at refused
      cases refused
    | some before =>
      rw [show memory.find? (StoreCall.insert header).id = _ from found] at refused
      cases refused
      rfl
  | commit c =>
    change memory.commit c = _
    rw [commit]
    cases found : memory.find? c.header.id with
    | none =>
      rw [show memory.find? (StoreCall.commit c).id = _ from found] at refused
      cases refused
      rfl
    | some before =>
      rw [show memory.find? (StoreCall.commit c).id = _ from found, StoreCall.outcome] at refused
      cases check : before.header.checkVersion c.expected with
      | ok _ => simp [check, Except.map] at refused
      | error cause =>
        rw [check] at refused
        cases refused
        simp only [check]

theorem perform_ok (accepted : call.outcome (memory.find? call.id) = .ok e) :
    (call.perform memory).1 = .ok () ∧
      (call.perform memory).2.find? = Function.update memory.find? call.id (some e) := by
  cases call with
  | insert header =>
    obtain ⟨absent, rfl⟩ := StoreCall.insert_ok accepted
    have ok : (ExecutionStore.insert memory header).1 = .ok () := by
      change (memory.insert header).1 = _
      rw [insert, show memory.find? header.id = _ from absent]
    exact ⟨ok, (LawfulStore.insert_ok ok).2⟩
  | commit c =>
    obtain ⟨before, present, version, rfl⟩ := StoreCall.commit_ok accepted
    have ok : (ExecutionStore.commit memory c).1 = .ok () := by
      change (memory.commit c).1 = _
      rw [commit, show memory.find? c.header.id = _ from present]
      simp [ExecutionHeader.checkVersion, version]
    obtain ⟨other, found, -, stored⟩ := LawfulStore.commit_ok ok
    obtain rfl : before = other := Option.some_inj.mp (present.symm.trans found)
    exact ⟨ok, stored⟩

theorem load_eq (memory : MemoryStore) (id : ExecutionId) :
    ExecutionStore.load memory id =
      .ok ((memory.find? id).map fun e => ExecutionStore.assemble e.header e.log) := by
  have header : ExecutionStore.loadHeader memory id = .ok ((memory.find? id).map (·.header)) := rfl
  rw [ExecutionStore.load, header]
  cases found : memory.find? id with
  | none => rfl
  | some e =>
    have every : e.log.filter (fun c => 0 ≤ c.sequence) = e.log :=
      List.filter_eq_self.mpr fun c _ => decide_eq_true (Nat.zero_le _)
    have log : ExecutionStore.loadCheckpoints memory id 0 = .ok e.log := by
      change memory.loadCheckpoints id 0 = _
      rw [loadCheckpoints, found]
      exact congrArg Except.ok every
    change Except.bind (ExecutionStore.loadCheckpoints memory id 0) _ = _
    rw [log]
    rfl

end MemoryStore

namespace FileStore

/-- Files show what memory shows, but for the signs of zeros, which no comparison sees. -/
structure Shows (store : FileStore) (memory : MemoryStore) : Prop where
  loadHeader : ∀ id, ExecutionStore.loadHeader store id =
    (ExecutionStore.loadHeader memory id).map (·.map (·.unsigned))
  loadCheckpoints : ∀ id start, ExecutionStore.loadCheckpoints store id start =
    (ExecutionStore.loadCheckpoints memory id start).map (·.map (·.unsigned))
  load : ∀ id, ExecutionStore.load store id =
    (ExecutionStore.load memory id).map (·.map (·.unsigned))

variable {root : Path} {fs : FileSystem} {memory : MemoryStore} {call : StoreCall}

theorem perform_eq (call : StoreCall) (root : Path) (fs : FileSystem) :
    call.perform (FileStore.mk root fs) =
      ((FileProgram.run (call.program root).run fs).1,
        ⟨root, (FileProgram.run (call.program root).run fs).2⟩) := by
  cases call <;> rfl

theorem Holding.shows (holding : Holding root memory.find? fs)
    (readable : ∀ id, ∀ e ∈ memory.find? id, e.Shallow) : Shows ⟨root, fs⟩ memory where
  loadHeader id := by
    rw [holding.loadHeader]
    change _ = Except.map _ (.ok ((memory.find? id).map (·.header)))
    cases found : memory.find? id with
    | none => rfl
    | some e => exact if_pos (readable id e found).header
  loadCheckpoints id start := by
    rw [holding.loadCheckpoints]
    change _ = Except.map _ (memory.loadCheckpoints id start)
    rw [MemoryStore.loadCheckpoints]
    cases found : memory.find? id with
    | none => rfl
    | some e =>
      refine (if_pos (readable id e found)).trans ?_
      rw [List.filter_map]
      rfl
  load id := by
    rw [holding.load, MemoryStore.load_eq]
    cases found : memory.find? id with
    | none => rfl
    | some e => exact if_pos (readable id e found)

/-- Files answer a call as memory does, and hold afterwards what memory holds. -/
theorem Holding.goes_along (holding : Holding root memory.find? fs)
    (readable : ∀ id, ∀ e ∈ memory.find? id, e.Shallow)
    (legible : ∀ e, call.outcome (memory.find? call.id) = .ok e → e.Of Binary64.Legible) :
    (call.perform (FileStore.mk root fs)).1 = (call.perform memory).1 ∧
      ∃ left, (call.perform (FileStore.mk root fs)).2 = ⟨root, left⟩ ∧
        Holding root (call.perform memory).2.find? left := by
  have verdict := @StoreCall.verdict_of_shallow call (memory.find? call.id)
    fun e mem => (readable _ e mem).header
  rw [perform_eq]
  cases outcome : call.outcome (memory.find? call.id) with
  | error cause =>
    obtain ⟨result, still⟩ := (holding.keeps_of_error (verdict.trans outcome)).run
    rw [MemoryStore.perform_error outcome]
    exact ⟨result, fs, congrArg (FileStore.mk root) still, holding⟩
  | ok e =>
    obtain ⟨ok, found⟩ := MemoryStore.perform_ok outcome
    obtain ⟨result, landed⟩ := (holding.replaces (verdict.trans outcome) (legible e outcome)).run
    rw [ok, found]
    exact ⟨result, _, rfl, landed⟩

end FileStore

end WorkflowEngine
