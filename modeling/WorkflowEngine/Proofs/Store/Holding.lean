import Mathlib.Logic.Function.Basic
import WorkflowEngine.Proofs.Store.Change

/-!
# What files hold and show

The files under a root hold one record for each execution. Readers see the records whose contexts are
shallow and refuse the others; a call that writes either is refused and changes nothing, or puts one new
record in place of the old one, in one step whatever the operations in between.
-/
namespace WorkflowEngine

/-- A call that writes. -/
inductive StoreCall where
  | insert (header : ExecutionHeader)
  | commit (c : Commit)
  deriving Inhabited

namespace StoreCall

def header : StoreCall → ExecutionHeader
  | .insert header => header
  | .commit c => c.header

/-- The execution it is about. -/
def id (call : StoreCall) : ExecutionId := call.header.id

def appended : StoreCall → List Checkpoint
  | .insert _ => []
  | .commit c => c.appended

def perform {σ : Type} [ExecutionStore σ] (call : StoreCall) (store : σ) : Except StoreError Unit × σ :=
  match call with
  | .insert header => ExecutionStore.insert store header
  | .commit c => ExecutionStore.commit store c

def program (call : StoreCall) (root : Path) : StoreProgram Unit :=
  match call with
  | .insert header => FileStore.insertProgram root header
  | .commit c => FileStore.commitProgram root c

/-- What a call makes of the record of its execution. -/
def outcome (call : StoreCall) (record : Option StoredExecution) : Except StoreError StoredExecution :=
  match call, record with
  | .insert header, none => .ok ⟨header, []⟩
  | .insert header, some _ => .error (.alreadyExists header.id)
  | .commit c, none => .error (.notFound c.header.id)
  | .commit c, some e =>
    (e.header.checkVersion c.expected).map fun _ => ⟨c.header, e.log ++ c.appended⟩

/-- What a call makes of a record in files, where it has to read the header first. -/
def verdict (call : StoreCall) (record : Option StoredExecution) : Except StoreError StoredExecution :=
  if ∀ e ∈ record, e.header.context.Shallow then call.outcome record else .error .tooDeep

variable {call : StoreCall} {record : Option StoredExecution} {e : StoredExecution}

theorem verdict_of_shallow (shallow : ∀ e ∈ record, e.header.context.Shallow) :
    call.verdict record = call.outcome record := if_pos shallow

theorem outcome_of_verdict (accepted : call.verdict record = .ok e) : call.outcome record = .ok e := by
  unfold verdict at accepted
  split at accepted
  · exact accepted
  · cases accepted

theorem insert_ok {header : ExecutionHeader} (accepted : outcome (.insert header) record = .ok e) :
    record = none ∧ e = ⟨header, []⟩ := by
  cases record with
  | none =>
    cases accepted
    exact ⟨rfl, rfl⟩
  | some before => cases accepted

theorem commit_ok {c : Commit} (accepted : outcome (.commit c) record = .ok e) :
    ∃ before, record = some before ∧ before.header.version = c.expected ∧
      e = ⟨c.header, before.log ++ c.appended⟩ := by
  cases record with
  | none => cases accepted
  | some before =>
    rw [outcome, ExecutionHeader.checkVersion] at accepted
    by_cases version : before.header.version = c.expected
    · rw [if_pos version] at accepted
      cases accepted
      exact ⟨before, rfl, version, rfl⟩
    · rw [if_neg version] at accepted
      cases accepted

end StoreCall

/-- A record that its files have room for, with numbers of a kind. -/
structure StoredExecution.Of (P : Binary64 → Prop) (e : StoredExecution) : Prop where
  header : e.header.Of P
  log : ∀ c ∈ e.log, c.Of P
  length : (FileStore.logOf e.log).length < UInt64.size

instance {P : Binary64 → Prop} [DecidablePred P] (e : StoredExecution) : Decidable (e.Of P) :=
  decidable_of_iff (e.header.Of P ∧ (∀ c ∈ e.log, c.Of P) ∧
      (FileStore.logOf e.log).length < UInt64.size)
    ⟨fun ⟨header, log, length⟩ => ⟨header, log, length⟩, fun of => ⟨of.header, of.log, of.length⟩⟩

/-- A record that can be read back. -/
structure StoredExecution.Shallow (e : StoredExecution) : Prop where
  header : e.header.context.Shallow
  log : ∀ c ∈ e.log, c.context.Shallow

instance (e : StoredExecution) : Decidable e.Shallow :=
  decidable_of_iff (e.header.context.Shallow ∧ ∀ c ∈ e.log, c.context.Shallow)
    ⟨fun both => ⟨both.1, both.2⟩, fun shallow => ⟨shallow.header, shallow.log⟩⟩

/-- The record with the signs of its zeros taken off. -/
def ExecutionRecord.unsigned (record : ExecutionRecord) : ExecutionRecord :=
  ⟨record.header.unsigned, record.checkpoints.map (·.unsigned)⟩

namespace FileStore

variable {root : Path} {id : ExecutionId} {fs left : FileSystem}
  {records : ExecutionId → Option StoredExecution} {record : Option StoredExecution}

/-- Nothing on the way to a file of an execution is a file. -/
theorem Laid.read_absent (laid : Laid root fs) {name : String}
    (absent : fs.find? (filePath root id name) = none) :
    fs.read (filePath root id name) = .error .notFound := by
  have clear : fs.isBlocked (filePath root id name) = false := by
    rw [FileSystem.isBlocked, filePath, FileSystem.way_append, List.dropLast_concat,
      List.any_eq_false]
    intro above mem
    rw [FileStore.directory, FileSystem.way_append, List.mem_append, List.mem_singleton] at mem
    rcases mem with mem | rfl
    · simp [laid.reaches above mem]
    · have here := laid.directory id
      rw [FileStore.directory] at here
      rcases here with none | there
      · simp [none]
      · simp [there]
  simp [FileSystem.read, absent, FileSystem.absent, clear]

/-- What a reader makes of the header file of a record. -/
def seen : Option StoredExecution → Except StoreError (Option StoredHeader)
  | none => .ok none
  | some e =>
    if e.header.context.Shallow then .ok (some ⟨e.header.unsigned, (logOf e.log).length⟩)
    else .error .tooDeep

theorem headerOf_read (laid : Laid root fs) (holds : Holds root id fs record)
    (legible : ∀ e ∈ record, e.Of Binary64.Legible) :
    headerOf (fs.read (headerPath root id)) = seen record := by
  cases record with
  | none => rw [show fs.read (headerPath root id) = _ from laid.read_absent holds]; rfl
  | some e =>
    have found : fs.read (headerPath root id) =
        .ok (StoredHeader.encode ⟨e.header, (logOf e.log).length⟩) := by
      rw [FileSystem.read, show fs.find? (headerPath root id) = _ from holds.1]
    have legible := legible e rfl
    have decoded := @StoredHeader.decode_encode ⟨e.header, (logOf e.log).length⟩ legible.header
      legible.length
    rw [found, headerOf, decoded, seen]
    by_cases shallow : e.header.context.Shallow
    · rw [if_pos shallow, if_pos shallow]
      rfl
    · rw [if_neg shallow, if_neg shallow]
      rfl

/-- The records that the files under a root hold. -/
structure Holding (root : Path) (records : ExecutionId → Option StoredExecution) (fs : FileSystem) :
    Prop where
  laid : Laid root fs
  holds : ∀ id, Holds root id fs (records id)
  legible : ∀ id, ∀ e ∈ records id, e.Of Binary64.Legible

namespace Holding

theorem headerOf_read (holding : Holding root records fs) (id : ExecutionId) :
    headerOf (fs.read (headerPath root id)) = seen (records id) :=
  FileStore.headerOf_read holding.laid (holding.holds id) (holding.legible id)

/-- Changes to the files of one execution are changes to its record. -/
theorem touched (holding : Holding root records fs) {names : List String}
    (touches : Touches root id names fs left) (holds : Holds root id left record)
    (legible : ∀ e ∈ record, e.Of Binary64.Legible) :
    Holding root (Function.update records id record) left where
  laid := touches.laid
  holds other := by
    by_cases here : other = id
    · subst here
      rwa [Function.update_self]
    · rw [Function.update_of_ne here]
      exact (holding.holds other).aside touches here
  legible other := by
    by_cases here : other = id
    · subst here
      rwa [Function.update_self]
    · rw [Function.update_of_ne here]
      exact holding.legible other

theorem untouched (holding : Holding root records fs) {names : List String}
    (touches : Touches root id names fs left) (holds : Holds root id left (records id)) :
    Holding root records left := by
  have same := holding.touched touches holds (holding.legible id)
  rwa [Function.update_eq_self] at same

end Holding

section Reading

theorem run_readHeader (root : Path) (id : ExecutionId) (fs : FileSystem) :
    FileProgram.run (readHeader root id).run fs = (headerOf (fs.read (headerPath root id)), fs) := by
  have run : (readHeader root id).run =
      .step (.read (headerPath root id)) fun reply => .done (headerOf reply) := by
    change FileProgram.step _ _ = _
    congr 1
    funext reply
    rcases reply with e | bytes
    · cases e <;> rfl
    · rfl
  rw [run]
  rfl

theorem run_of_readHeader {α : Type} (root : Path) (id : ExecutionId) (fs : FileSystem)
    (rest : Option StoredHeader → StoreProgram α) :
    FileProgram.run (readHeader root id >>= rest).run fs =
      match headerOf (fs.read (headerPath root id)) with
      | .ok found => FileProgram.run (rest found).run fs
      | .error e => (.error e, fs) := by
  rw [run_readHeader_bind]
  simp only [FileProgram.run, FileSystem.perform]
  cases headerOf (fs.read (headerPath root id)) <;> rfl

theorem run_perform_bind {α : Type} (op : FileOp) (rest : op.Answer → StoreProgram α)
    (fs : FileSystem) :
    FileProgram.run (perform op >>= rest).run fs =
      match (fs.perform op).1 with
      | .ok answer => FileProgram.run (rest answer).run (fs.perform op).2
      | .error e => (.error (.io e.message), (fs.perform op).2) := by
  change FileProgram.run (FileProgram.step op _) fs = _
  rw [FileProgram.run]
  rcases fs.perform op with ⟨reply, next⟩
  cases reply <;> rfl

/-- A header is read exactly where its context is shallow. -/
theorem Holding.loadHeader (holding : Holding root records fs) (id : ExecutionId) :
    ExecutionStore.loadHeader (FileStore.mk root fs) id =
      match records id with
      | none => .ok none
      | some e => if e.header.context.Shallow then .ok (some e.header.unsigned) else .error .tooDeep := by
  change Except.map _ (FileProgram.run (readHeader root id).run fs).1 = _
  rw [run_readHeader, holding.headerOf_read]
  cases records id with
  | none => rfl
  | some e =>
    by_cases shallow : e.header.context.Shallow
    · simp only [seen, if_pos shallow]
      rfl
    · simp only [seen, if_neg shallow]
      rfl

theorem line_ne_nil (c : Checkpoint) : line c ≠ [] := by simp [line]

theorem logOf_eq_nil {log : List Checkpoint} : logOf log = [] ↔ log = [] := by
  cases log with
  | nil => simp [logOf]
  | cons c log => simp [logOf, line_ne_nil]

/-- The committed part of a log that is not empty. -/
theorem Holding.read_log (holding : Holding root records fs) {e : StoredExecution}
    (held : records id = some e) (some : e.log ≠ []) :
    ∃ bytes, fs.read (logPath root id) = .ok bytes ∧
      bytes.take (logOf e.log).length = logOf e.log := by
  have start : logOf e.log <+: fs.contentOf (logPath root id) := by
    have holds := holding.holds id
    rw [held] at holds
    exact holds.2
  cases found : fs.find? (logPath root id) with
  | none =>
    rw [FileSystem.contentOf, found] at start
    exact absurd (List.prefix_nil.mp start) (mt logOf_eq_nil.mp some)
  | some node =>
    cases node with
    | directory => exact absurd found (holding.laid.free id logFile)
    | file bytes =>
      rw [FileSystem.contentOf, found] at start
      have cut : logOf e.log = bytes.take (logOf e.log).length := List.prefix_iff_eq_take.mp start
      exact ⟨bytes, by rw [FileSystem.read, found], cut.symm⟩

/-- A log is read exactly where its own contexts and that of the header are shallow; of an empty one
there is nothing to read. -/
theorem Holding.loadCheckpoints (holding : Holding root records fs) (id : ExecutionId) (start : Nat) :
    ExecutionStore.loadCheckpoints (FileStore.mk root fs) id start =
      match records id with
      | none => .error (.notFound id)
      | some e =>
        if e.Shallow then
          .ok ((e.log.map (·.unsigned)).filter (start ≤ ·.sequence))
        else .error .tooDeep := by
  change (FileProgram.run (loadCheckpointsProgram root id start).run fs).1 = _
  rw [loadCheckpointsProgram, run_of_readHeader, holding.headerOf_read]
  have legible := holding.legible id
  cases held : records id with
  | none => rfl
  | some e =>
    by_cases shallow : e.header.context.Shallow
    case neg =>
      rw [seen, if_neg shallow]
      exact (if_neg fun whole : e.Shallow => shallow whole.header).symm
    rw [seen, if_pos shallow]
    by_cases empty : e.log = []
    · have whole : e.Shallow := ⟨shallow, by rw [empty]; intro c mem; cases mem⟩
      simp only [whole, empty, logOf, List.flatMap_nil, List.length_nil, if_true]
      rfl
    have length : (logOf e.log).length ≠ 0 := fun none =>
      empty (logOf_eq_nil.mp (List.length_eq_zero_iff.mp none))
    obtain ⟨bytes, read, cut⟩ := holding.read_log held empty
    simp only
    rw [if_neg length]
    have run := run_perform_bind (.read (logPath root id)) (fun bytes : Bytes =>
      ExceptT.mk (.done (readLog (bytes.take (logOf e.log).length) start))) fs
    simp only [FileSystem.perform, read, cut] at run
    refine (congrArg Prod.fst run).trans ?_
    change readLog (logOf e.log) start = _
    have whole : e.Shallow ↔ ∀ c ∈ e.log, c.context.Shallow :=
      ⟨fun whole => whole.log, fun log => ⟨shallow, log⟩⟩
    simp only [readLog_logOf (legible e held).log, whole]

/-- A record is read exactly where all its contexts are shallow. -/
theorem Holding.load (holding : Holding root records fs) (id : ExecutionId) :
    ExecutionStore.load (FileStore.mk root fs) id =
      match records id with
      | none => .ok none
      | some e =>
        if e.Shallow then .ok (some (ExecutionStore.assemble e.header e.log).unsigned)
        else .error .tooDeep := by
  rw [ExecutionStore.load, holding.loadHeader, holding.loadCheckpoints]
  cases records id with
  | none => rfl
  | some e =>
    dsimp only
    by_cases shallow : e.header.context.Shallow
    case neg =>
      have part : ¬e.Shallow := fun whole => shallow whole.header
      rw [if_neg shallow, if_neg part, if_neg part]
      rfl
    by_cases whole : e.Shallow
    case neg =>
      rw [if_pos shallow, if_neg whole, if_neg whole]
      rfl
    have every : (e.log.map (·.unsigned)).filter (fun c => 0 ≤ c.sequence) = e.log.map (·.unsigned) :=
      List.filter_eq_self.mpr fun c _ => decide_eq_true (Nat.zero_le _)
    have cut : (e.log.map (·.unsigned)).take e.header.checkpointCount =
        (e.log.take e.header.checkpointCount).map (·.unsigned) := List.map_take.symm
    rw [if_pos shallow, if_pos whole, if_pos whole, every]
    exact congrArg (fun log => Except.ok (some (ExecutionRecord.mk e.header.unsigned log))) cut

end Reading

section Writing

variable {call : StoreCall} {e : StoredExecution}

/-- The first operation of a writer reads; what it does then depends on what it has read. -/
theorem turns_decided {α : Type} {judge : Option StoredHeader → Except StoreError α}
    {changes : α → List FileOp} {before : FileSystem → Prop} {refused : Except StoreError Unit → Prop}
    {after : Except StoreError Unit → FileSystem → Prop} (start : before fs)
    (rest : FileProgram.Turns before refused after
      (match headerOf (fs.read (headerPath root id)) >>= judge with
        | .ok a => .inOrder (changes a)
        | .error e => .done (.error e)) fs) :
    (decided root id judge changes).Turns before refused after fs := by
  refine ⟨fun left torn => ?_, rest⟩
  rw [torn.of_read]
  exact start

theorem seen_judgeInsert (header : ExecutionHeader) (record : Option StoredExecution) :
    seen record >>= judgeInsert header =
      (StoreCall.verdict (.insert header) record).map fun _ => () := by
  cases record with
  | none => rfl
  | some e =>
    by_cases shallow : e.header.context.Shallow
    · rw [seen, if_pos shallow, StoreCall.verdict_of_shallow (by simpa using shallow)]
      rfl
    · rw [seen, if_neg shallow, StoreCall.verdict, if_neg (by simpa using shallow)]
      rfl

theorem seen_judgeCommit (c : Commit) (record : Option StoredExecution) :
    seen record >>= judgeCommit c =
      (StoreCall.verdict (.commit c) record).map fun _ =>
        (logOf (record.elim [] (·.log))).length := by
  cases record with
  | none => rfl
  | some e =>
    by_cases shallow : e.header.context.Shallow
    · rw [seen, if_pos shallow, StoreCall.verdict_of_shallow (by simpa using shallow)]
      change (e.header.checkVersion c.expected).map _ = ((e.header.checkVersion c.expected).map _).map _
      cases e.header.checkVersion c.expected <;> rfl
    · rw [seen, if_neg shallow, StoreCall.verdict, if_neg (by simpa using shallow)]
      rfl

/-- A call that is refused changes nothing. -/
theorem Holding.turns_of_error (holding : Holding root records fs) {cause : StoreError}
    (refused : call.verdict (records call.id) = .error cause) :
    (call.program root).run.Turns (· = fs) (· = .error cause) (fun _ _ => False) fs := by
  cases call with
  | insert header =>
    replace refused : StoreCall.verdict (.insert header) (records header.id) = .error cause := refused
    rw [StoreCall.program, run_insertProgram]
    refine turns_decided rfl ?_
    rw [holding.headerOf_read, seen_judgeInsert, refused]
    exact ⟨rfl, rfl⟩
  | commit c =>
    replace refused : StoreCall.verdict (.commit c) (records c.header.id) = .error cause := refused
    rw [StoreCall.program, run_commitProgram]
    refine turns_decided rfl ?_
    rw [holding.headerOf_read, seen_judgeCommit, refused]
    exact ⟨rfl, rfl⟩

/-- Wherever a refused call stops, nothing has changed. -/
theorem Holding.keeps_of_error (holding : Holding root records fs) {cause : StoreError}
    (refused : call.verdict (records call.id) = .error cause) :
    (call.program root).run.Keeps (· = fs) (fun result left => result = .error cause ∧ left = fs)
      fs := by
  apply (holding.turns_of_error refused).keeps.weaken
  · rintro left (still | ⟨-, none⟩)
    · exact still
    · exact none.elim
  · rintro result left (⟨still, error⟩ | none)
    · exact ⟨error, still⟩
    · exact none.elim

/-- What an accepted call does: until its header is renamed the files hold the records from before, and
then those with the new one. -/
def Lands (root : Path) (records : ExecutionId → Option StoredExecution) (call : StoreCall)
    (e : StoredExecution) (fs : FileSystem) : Prop :=
  (call.program root).run.Turns (Holding root records) (fun _ => False)
    (fun result left => result = .ok () ∧
      Holding root (Function.update records call.id (some e)) left) fs

theorem Holding.lands_of_insert (holding : Holding root records fs) {header : ExecutionHeader}
    (accepted : StoreCall.verdict (.insert header) (records header.id) = .ok e)
    (legible : ∀ made ∈ some e, made.Of Binary64.Legible) : Lands root records (.insert header) e fs := by
  rw [Lands, StoreCall.program, run_insertProgram]
  refine turns_decided holding ?_
  rw [holding.headerOf_read, seen_judgeInsert, accepted]
  obtain ⟨absent, rfl⟩ := StoreCall.insert_ok (StoreCall.outcome_of_verdict accepted)
  have held := holding.holds header.id
  rw [absent] at held
  apply (changes_insert holding.laid held).weaken
  · rintro left ⟨touches, still⟩
    exact holding.untouched touches (by rw [absent]; exact still)
  · exact fun _ refused => refused
  · rintro result left ⟨rfl, touches, new⟩
    exact ⟨rfl, holding.touched touches new legible⟩

theorem Holding.lands_of_commit (holding : Holding root records fs) {c : Commit}
    (accepted : StoreCall.verdict (.commit c) (records c.header.id) = .ok e)
    (legible : ∀ made ∈ some e, made.Of Binary64.Legible) : Lands root records (.commit c) e fs := by
  rw [Lands, StoreCall.program, run_commitProgram]
  refine turns_decided holding ?_
  rw [holding.headerOf_read, seen_judgeCommit, accepted]
  obtain ⟨before, present, -, rfl⟩ := StoreCall.commit_ok (StoreCall.outcome_of_verdict accepted)
  have held := holding.holds c.header.id
  rw [present] at held ⊢
  apply (changes_commit holding.laid (held.made holding.laid) held.2).weaken
  · rintro left ⟨touches, spared⟩
    exact holding.untouched touches (by rw [present]; exact spared.holds held)
  · exact fun _ refused => refused
  · rintro result left ⟨rfl, touches, new⟩
    exact ⟨rfl, holding.touched touches new legible⟩

/-- A call that is accepted puts its record in place of the old one by one rename. -/
theorem Holding.lands (holding : Holding root records fs)
    (accepted : call.verdict (records call.id) = .ok e) (legible : e.Of Binary64.Legible) :
    Lands root records call e fs := by
  have legible : ∀ made ∈ some e, made.Of Binary64.Legible := by simpa using legible
  cases call with
  | insert header => exact holding.lands_of_insert accepted legible
  | commit c => exact holding.lands_of_commit accepted legible

/-- What an accepted call keeps: the records from before or those with the new one wherever it stops,
and the latter at its end. -/
def Replaces (root : Path) (records : ExecutionId → Option StoredExecution) (call : StoreCall)
    (e : StoredExecution) (fs : FileSystem) : Prop :=
  (call.program root).run.Keeps
    (fun left => Holding root records left ∨
      Holding root (Function.update records call.id (some e)) left)
    (fun result left => result = .ok () ∧
      Holding root (Function.update records call.id (some e)) left) fs

/-- A call that is accepted puts its record in place of the old one, in one step. -/
theorem Holding.replaces (holding : Holding root records fs)
    (accepted : call.verdict (records call.id) = .ok e) (legible : e.Of Binary64.Legible) :
    Replaces root records call e fs := by
  apply (holding.lands accepted legible).keeps.weaken
  · rintro left (still | ⟨-, -, landed⟩)
    · exact .inl still
    · exact .inr landed
  · rintro result left (⟨-, none⟩ | landed)
    · exact none.elim
    · exact landed

end Writing

end FileStore

end WorkflowEngine
