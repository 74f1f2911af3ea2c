import WorkflowEngine.Proofs.File.Program
import WorkflowEngine.Proofs.Store.Text

/-!
# What a writer does to files

An insertion and a commit first read the header and decide, and then change files one after the other,
up to the first change that fails. What they change is told by lists of operations.
-/
namespace WorkflowEngine

/-- Perform operations in order, up to the first that fails. -/
def FileProgram.inOrder : List FileOp → FileProgram (Except StoreError Unit)
  | [] => .done (.ok ())
  | op :: ops => .step op fun
    | .ok _ => inOrder ops
    | .error e => .done (.error (.io e.message))

namespace FileStore

theorem run_bind_inOrder {first second : StoreProgram Unit} {ops others : List FileOp}
    (run : first.run = .inOrder ops) (after : second.run = .inOrder others) :
    (first >>= fun _ => second).run = .inOrder (ops ++ others) := by
  change FileProgram.bind first.run _ = _
  rw [run]
  induction ops generalizing first with
  | nil => exact after
  | cons op ops ih =>
    change FileProgram.step op _ = FileProgram.step op _
    congr 1
    funext reply
    cases reply with
    | error e => rfl
    | ok _ => exact @ih (FileProgram.inOrder ops) rfl

/-- The changes that replace a header. -/
def headerChanges (root : Path) (stored : StoredHeader) : List FileOp :=
  [.replace (temporaryPath root stored.header.id) stored.encode,
    .rename (temporaryPath root stored.header.id) (headerPath root stored.header.id)]

theorem run_writeHeader (root : Path) (stored : StoredHeader) :
    (writeHeader root stored).run = .inOrder (headerChanges root stored) := by
  have replace : (perform (.replace (temporaryPath root stored.header.id) stored.encode)).run =
      .inOrder [.replace (temporaryPath root stored.header.id) stored.encode] := rfl
  exact run_bind_inOrder replace rfl

/-- What a reader makes of a header file. -/
def headerOf : (Except FileError Bytes) → Except StoreError (Option StoredHeader)
  | .ok bytes => (Bytes.decode StoredHeader.decode bytes).map some
  | .error .notFound => .ok none
  | .error e => .error (.io e.message)

theorem run_readHeader_bind {α : Type} (root : Path) (id : ExecutionId)
    (rest : Option StoredHeader → StoreProgram α) :
    (readHeader root id >>= rest).run = .step (.read (headerPath root id)) fun reply =>
      match headerOf reply with
      | .ok found => (rest found).run
      | .error e => .done (.error e) := by
  change FileProgram.step _ _ = _
  congr 1
  funext reply
  rcases reply with e | bytes
  · cases e <;> rfl
  · change FileProgram.bind (FileProgram.done _) _ = _
    simp only [FileProgram.bind, headerOf]
    cases Bytes.decode StoredHeader.decode bytes <;> rfl

/-- Read the header, decide, and perform the changes. -/
def decided {α : Type} (root : Path) (id : ExecutionId)
    (judge : Option StoredHeader → Except StoreError α) (changes : α → List FileOp) :
    FileProgram (Except StoreError Unit) :=
  .step (.read (headerPath root id)) fun reply =>
    match headerOf reply >>= judge with
    | .ok a => .inOrder (changes a)
    | .error e => .done (.error e)

/-- What an insertion makes of what it finds. -/
def judgeInsert (header : ExecutionHeader) (found : Option StoredHeader) : Except StoreError Unit :=
  if found.isSome then .error (.alreadyExists header.id) else .ok ()

/-- The changes of an insertion. -/
def insertChanges (root : Path) (header : ExecutionHeader) : List FileOp :=
  .createDirectories (directory root header.id) :: headerChanges root ⟨header, 0⟩

theorem run_insertProgram (root : Path) (header : ExecutionHeader) :
    (insertProgram root header).run =
      decided root header.id (judgeInsert header) fun _ => insertChanges root header := by
  refine (run_readHeader_bind root header.id _).trans ?_
  rw [decided]
  congr 1
  funext reply
  cases headerOf reply with
  | error e => rfl
  | ok found =>
    cases found with
    | some stored => rfl
    | none =>
      have make : (perform (.createDirectories (directory root header.id))).run =
          .inOrder [.createDirectories (directory root header.id)] := rfl
      exact run_bind_inOrder make (run_writeHeader root ⟨header, 0⟩)

/-- What a commit makes of what it finds: the committed length of the log, unless it is refused. -/
def judgeCommit (c : Commit) : Option StoredHeader → Except StoreError Nat
  | none => .error (.notFound c.header.id)
  | some current => (current.header.checkVersion c.expected).map fun _ => current.logBytes

/-- The changes of a commit to a log of a committed length. -/
def commitChanges (root : Path) (c : Commit) (committed : Nat) : List FileOp :=
  (if c.appended.isEmpty then [] else
    [.resize (logPath root c.header.id) committed,
      .writeAt (logPath root c.header.id) committed (logOf c.appended)]) ++
    headerChanges root ⟨c.header, committed + (logOf c.appended).length⟩

theorem run_commitProgram (root : Path) (c : Commit) :
    (commitProgram root c).run =
      decided root c.header.id (judgeCommit c) (commitChanges root c) := by
  refine (run_readHeader_bind root c.header.id _).trans ?_
  rw [decided]
  congr 1
  funext reply
  cases headerOf reply with
  | error e => rfl
  | ok found =>
    cases found with
    | none => rfl
    | some current =>
      simp only [judgeCommit, bind, Except.bind]
      cases current.header.checkVersion c.expected with
      | error e => rfl
      | ok _ =>
        simp only [Except.map, commitChanges]
        by_cases none : c.appended = []
        · simp only [none, List.isEmpty_nil, if_true, List.nil_append, logOf, List.flatMap_nil,
            List.length_nil, Nat.add_zero]
          exact run_writeHeader root ⟨c.header, current.logBytes⟩
        · rw [if_neg (by simpa using none), if_neg (by simpa using none)]
          have cut : (perform (.resize (logPath root c.header.id) current.logBytes)).run =
              .inOrder [.resize (logPath root c.header.id) current.logBytes] := rfl
          exact run_bind_inOrder (run_bind_inOrder cut rfl) (run_writeHeader root ⟨c.header, _⟩)

end FileStore

end WorkflowEngine
