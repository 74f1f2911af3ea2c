import WorkflowEngine.Proofs.State.Sharing
import WorkflowEngine.Proofs.State.Signs

/-!
Who loads a record or reconciles a working copy reads the header and then the log, and others may commit
in between. As the log only grows and the header says how much of it belongs to it, what comes of the two
reads is the record as it was when the header was read.
-/
namespace WorkflowEngine

/-- What a record is read for. -/
inductive Reading where
  | load (id : ExecutionId)
  | reconcile (state : ExecutionState)

namespace Reading

def id : Reading → ExecutionId
  | .load id => id
  | .reconcile state => state.id

/-- Where the log is read from. -/
def start : Reading → Nat
  | .load _ => 0
  | .reconcile state => state.header.checkpointCount

/-- Is anything taken over from this header? -/
def wants : Reading → ExecutionHeader → Bool
  | .load _, _ => true
  | .reconcile state, header => state.isBehind header

/-- What comes of an execution that is not stored. -/
def absent : Reading → Except EngineError (Option ExecutionState)
  | .load _ => .ok none
  | .reconcile state => .error (.executionNotFound state.id)

/-- The working copy that comes of a header and of the log from `start` on. -/
def take : Reading → ExecutionHeader → List Checkpoint → ExecutionState
  | .load _, header, log => .ofRecord (ExecutionStore.assemble header log)
  | .reconcile state, header, log => state.adopt header log

/-- The two reads, however each is made. -/
def follow {m : Type → Type} [Monad m] (reading : Reading) (loadHeader : m (Option ExecutionHeader))
    (loadLog : m (List Checkpoint)) : m (Except EngineError (Option ExecutionState)) := do
  match ← loadHeader with
  | none => return reading.absent
  | some header =>
    if reading.wants header then return .ok (some (reading.take header (← loadLog)))
    else return .ok none

/-- The header is read of a store at one moment, and the log at another one. -/
def across {σ : Type} [ExecutionStore σ] (reading : Reading) (first later : σ) :
    Except StoreError (Except EngineError (Option ExecutionState)) :=
  reading.follow (ExecutionStore.loadHeader first reading.id)
    (ExecutionStore.loadCheckpoints later reading.id reading.start)

/-- The operations on files that the two reads are made of. -/
def program (reading : Reading) (root : Path) :
    StoreProgram (Except EngineError (Option ExecutionState)) :=
  reading.follow ((·.map (·.header)) <$> FileStore.readHeader root reading.id)
    (FileStore.loadCheckpointsProgram root reading.id reading.start)

/-- The checkpoints of a reconciled copy are the first ones of the log, as many as its header counts. -/
def Fits (log : List Checkpoint) : Reading → Prop
  | .load _ => True
  | .reconcile state => state.header.checkpointCount = state.checkpoints.length ∧
      state.checkpoints <+: log

def unsigned : Reading → Reading
  | .load id => .load id
  | .reconcile state => .reconcile state.unsigned

section

variable {σ : Type} [ExecutionStore σ]

/-- With nothing in between, a record is loaded. -/
theorem across_load (store : σ) (id : ExecutionId) :
    (load id).across store store =
      (ExecutionStore.load store id).map fun found => .ok (found.map .ofRecord) := by
  unfold across follow ExecutionStore.load
  simp only [Reading.id, start, wants, if_true]
  cases ExecutionStore.loadHeader store id with
  | error cause => rfl
  | ok found =>
      cases found with
      | none => rfl
      | some header => cases ExecutionStore.loadCheckpoints store id 0 <;> rfl

/-- With nothing in between, a handle catches up. -/
theorem catchUp_eq (handle : Handle) (host : Host σ) :
    handle.catchUp host =
      match (reconcile handle.state).across host.store host.store with
      | .error cause => .error (.store cause)
      | .ok (.error cause) => .error cause
      | .ok (.ok none) => .ok (false, handle)
      | .ok (.ok (some state)) => .ok (true, { handle with state }) := by
  unfold Handle.catchUp Handle.ahead? Handle.takeOver across follow
  simp only [Reading.id, start, wants]
  cases ExecutionStore.loadHeader host.store handle.state.id with
  | error cause => rfl
  | ok found =>
      cases found with
      | none => rfl
      | some header =>
          cases hbehind : handle.state.isBehind header with
          | false => simp [bind, Except.bind, pure, Except.pure, hbehind]
          | true =>
              cases ExecutionStore.loadCheckpoints host.store handle.state.id
                handle.state.header.checkpointCount <;>
                  simp [bind, Except.bind, pure, Except.pure, hbehind, take, Handle.mapState]

end

/-- A header and a later log are read as the record was when the header was read. -/
theorem take_eq {reading : Reading} {execution later : StoredExecution}
    (hnumbered : execution.Numbered) (hlater : later.Numbered) (hlog : execution.log <+: later.log)
    (hfits : reading.Fits execution.log) :
    reading.take execution.header (later.log.filter (reading.start ≤ ·.sequence)) =
      execution.state := by
  have hassemble : ExecutionState.ofRecord (ExecutionStore.assemble execution.header later.log) =
      execution.state := by
    unfold ExecutionStore.assemble StoredExecution.state
    rw [hnumbered.count, ← List.prefix_iff_eq_take.mp hlog]
  cases reading with
  | load id =>
      have hall : later.log.filter ((load id).start ≤ ·.sequence) = later.log :=
        List.filter_eq_self.mpr (by simp [start])
      rw [hall]
      exact hassemble
  | reconcile state =>
      obtain ⟨hcount, hchecks⟩ := hfits
      have hahead : state.header.checkpointCount ≤ execution.header.checkpointCount := by
        rw [hcount, hnumbered.count]
        exact hchecks.length_le
      exact (ExecutionState.adopt_eq hcount (hchecks.trans hlog) hlater hahead).trans hassemble

theorem unsigned_take (reading : Reading) (header : ExecutionHeader) (log : List Checkpoint) :
    (reading.take header log).unsigned =
      reading.unsigned.take header.unsigned (log.map (·.unsigned)) := by
  cases reading with
  | load id =>
      unfold take unsigned ExecutionState.unsigned ExecutionState.ofRecord ExecutionStore.assemble
      rw [List.map_take]
      rfl
  | reconcile state =>
      simp only [take, unsigned, ExecutionState.unsigned, ExecutionState.adopt, List.map_append,
        List.map_take]
      rfl

section

open FileStore

variable {root : Path}

/-- The second read and what follows, once the header is known. -/
def rest (reading : Reading) (root : Path) (header : ExecutionHeader) :
    StoreProgram (Except EngineError (Option ExecutionState)) := do
  return .ok (some (reading.take header (← loadCheckpointsProgram root reading.id reading.start)))

/-- The last operation, once the committed length of the log is known. -/
def readLogOf (reading : Reading) (root : Path) (header : ExecutionHeader) (length : Nat) :
    FileProgram (Except StoreError (Except EngineError (Option ExecutionState))) :=
  .step (.read (logPath root reading.id)) fun
    | .error e => .done (.error (.io e.message))
    | .ok (bytes : Bytes) => .done ((readLog (bytes.take length) reading.start).map fun log =>
        .ok (some (reading.take header log)))

theorem run_program (reading : Reading) :
    (reading.program root).run = .step (.read (headerPath root reading.id)) fun reply =>
      match headerOf reply with
      | .error cause => .done (.error cause)
      | .ok none => .done (.ok reading.absent)
      | .ok (some stored) =>
        if reading.wants stored.header then (reading.rest root stored.header).run
        else .done (.ok (.ok none)) := by
  change FileProgram.step _ _ = _
  congr 1
  funext reply
  rcases reply with e | bytes
  · cases e <;> rfl
  · change FileProgram.bind (FileProgram.bind (FileProgram.done _) _) _ = _
    simp only [FileProgram.bind, headerOf]
    cases Bytes.decode StoredHeader.decode bytes with
    | error cause => rfl
    | ok stored =>
        change ExceptT.run (ite _ _ _) = ite _ _ _
        split <;> rfl

theorem run_rest (reading : Reading) (header : ExecutionHeader) :
    (reading.rest root header).run = .step (.read (headerPath root reading.id)) fun reply =>
      match headerOf reply with
      | .error cause => .done (.error cause)
      | .ok none => .done (.error (.notFound reading.id))
      | .ok (some stored) =>
        if stored.logBytes = 0 then .done (.ok (.ok (some (reading.take header []))))
        else reading.readLogOf root header stored.logBytes := by
  change FileProgram.step _ _ = _
  congr 1
  funext reply
  rcases reply with e | bytes
  · cases e <;> rfl
  · change FileProgram.bind (FileProgram.bind (FileProgram.done _) _) _ = _
    simp only [FileProgram.bind, headerOf]
    cases Bytes.decode StoredHeader.decode bytes with
    | error cause => rfl
    | ok stored =>
        change FileProgram.bind (ExceptT.run (ite _ _ _)) _ = ite _ _ _
        split
        · rfl
        · change FileProgram.step _ _ = FileProgram.step _ _
          congr 1
          funext reply
          rcases reply with e | bytes
          · rfl
          · change FileProgram.bind (FileProgram.done (readLog (List.take stored.logBytes bytes) _)) _ =
              FileProgram.done (Except.map _ (readLog (List.take stored.logBytes bytes) _))
            cases readLog (List.take stored.logBytes bytes) reading.start <;> rfl

/-- With nothing in between, the operations on files are the two calls of the store. -/
theorem query_program (reading : Reading) (fs : FileSystem) :
    (FileStore.mk root fs).query (reading.program root) =
      reading.across (FileStore.mk root fs) (FileStore.mk root fs) := by
  have hheader : ExecutionStore.loadHeader (FileStore.mk root fs) reading.id =
      (headerOf (fs.read (headerPath root reading.id))).map (·.map (·.header)) := by
    change Except.map _ (FileProgram.run (readHeader root reading.id).run fs).1 = _
    rw [run_readHeader]
  have hrest (header : ExecutionHeader) : (FileProgram.run (reading.rest root header).run fs).1 =
      (ExecutionStore.loadCheckpoints (FileStore.mk root fs) reading.id reading.start).map fun log =>
        .ok (some (reading.take header log)) := by
    change (FileProgram.run (FileProgram.bind (loadCheckpointsProgram root reading.id reading.start).run _)
      fs).1 = Except.map _ (FileProgram.run (loadCheckpointsProgram root reading.id reading.start).run fs).1
    rw [FileProgram.run_bind]
    rcases FileProgram.run (loadCheckpointsProgram root reading.id reading.start).run fs with ⟨_ | _, _⟩
    · rfl
    · rfl
  unfold query across follow
  rw [run_program, hheader]
  simp only [FileProgram.run, FileSystem.perform]
  cases headerOf (fs.read (headerPath root reading.id)) with
  | error cause => rfl
  | ok found =>
      cases found with
      | none => rfl
      | some stored =>
          simp only [Except.map, Option.map_some]
          change (FileProgram.run (ite _ _ _) fs).1 = ite _ _ _
          split
          · rw [hrest]
            cases ExecutionStore.loadCheckpoints (FileStore.mk root fs) reading.id reading.start <;> rfl
          · rfl

end

end Reading

end WorkflowEngine
