import WorkflowEngine.Proofs.Store.Crash

/-!
# Commits of several processes

Processes that commit to one execution under one root take turns operation by operation, in any order. The
version is checked against the header that a process has read: whoever reads it after another's rename is
refused, and nobody else is. Those that read it before write over one another, and all but one of what
they were told is stored may be lost.

Stops and calls on other executions are not covered here.
-/
namespace WorkflowEngine

namespace FileOp

def isRead : FileOp → Bool
  | .read _ => true
  | _ => false

/-- Does an operation write into a file as it is? -/
def writesInto (path : Path) : FileOp → Bool
  | .resize p _ => p == path
  | .writeAt p _ _ => p == path
  | _ => false

theorem of_writesInto {op : FileOp} {path : Path} (log : op.writesInto path = true) :
    op.isRename = false ∧ op.isRead = false := by
  cases op <;> first | exact ⟨rfl, rfl⟩ | cases log

end FileOp

/-- Processes that work on the same files. -/
structure Race (ι : Type) where
  files : FileSystem
  /-- What each process has yet to do. -/
  rest : ι → FileProgram (Except StoreError Unit)
  /-- The operations so far, latest first. -/
  moves : List (ι × FileOp) := []

namespace Race

variable {ι : Type}

/-- Has a header been put in place? -/
def Renamed (moves : List (ι × FileOp)) : Prop := ∃ move ∈ moves, move.2.isRename = true

/-- Did a process read when a header had been put in place? -/
def Late (i : ι) : List (ι × FileOp) → Prop
  | [] => False
  | move :: earlier => (move.1 = i ∧ move.2.isRead = true ∧ Renamed earlier) ∨ Late i earlier

theorem Renamed.cons {moves : List (ι × FileOp)} (renamed : Renamed moves) (move : ι × FileOp) :
    Renamed (move :: moves) := by
  obtain ⟨earlier, mem, rename⟩ := renamed
  exact ⟨earlier, List.mem_cons_of_mem _ mem, rename⟩

theorem renamed_cons {moves : List (ι × FileOp)} {i : ι} {op : FileOp} (other : op.isRename = false) :
    Renamed ((i, op) :: moves) ↔ Renamed moves := by
  simp [Renamed, other]

theorem late_cons_of_ne {moves : List (ι × FileOp)} {i j : ι} (other : i ≠ j) (op : FileOp) :
    Late j ((i, op) :: moves) ↔ Late j moves := by
  simp [Late, other]

theorem late_cons_of_not_read {moves : List (ι × FileOp)} {i : ι} {op : FileOp}
    (other : op.isRead = false) (j : ι) : Late j ((i, op) :: moves) ↔ Late j moves := by
  simp [Late, other]

theorem Late.renamed {moves : List (ι × FileOp)} {i : ι} (late : Late i moves) : Renamed moves := by
  induction moves with
  | nil => exact late.elim
  | cons move moves ih =>
    rcases late with ⟨-, -, renamed⟩ | late
    · exact renamed.cons move
    · exact (ih late).cons move

theorem not_late_of_unmoved {moves : List (ι × FileOp)} {i : ι} (unmoved : ∀ move ∈ moves, move.1 ≠ i) :
    ¬Late i moves := by
  induction moves with
  | nil => exact not_false
  | cons move moves ih =>
    rw [List.forall_mem_cons] at unmoved
    rintro (⟨same, -⟩ | late)
    · exact unmoved.1 same
    · exact ih unmoved.2 late

section

variable [DecidableEq ι]

/-- A process performs its next operation. -/
def advance (race : Race ι) (i : ι) (op : FileOp)
    (next : op.Reply → FileProgram (Except StoreError Unit)) : Race ι where
  files := (race.files.perform op).2
  rest := Function.update race.rest i (next (race.files.perform op).1)
  moves := (i, op) :: race.moves

/-- What becomes of processes that take turns. -/
inductive Reaches (start : Race ι) : Race ι → Prop
  | refl : Reaches start start
  | move {race : Race ι} (reaches : Reaches start race) (i : ι) {op : FileOp}
      {next : op.Reply → FileProgram (Except StoreError Unit)} (turn : race.rest i = .step op next) :
      Reaches start (race.advance i op next)

end

open FileStore

/-- Every process is about to commit. -/
def begin (root : Path) (commits : ι → Commit) (files : FileSystem) : Race ι where
  files := files
  rest i := (commitProgram root (commits i)).run

/-- Commits of one execution that were all made from the version that is stored. -/
structure Rivals (id : ExecutionId) (e : StoredExecution) (commits : ι → Commit) : Prop where
  before : e.Of Binary64.Legible ∧ e.Shallow
  id : ∀ i, (commits i).header.id = id
  expected : ∀ i, (commits i).expected = e.header.version
  newer : ∀ i, (commits i).header.version ≠ e.header.version
  legible : ∀ i, (StoreCall.commit (commits i)).Of Binary64.Legible
  shallow : ∀ i, (StoreCall.commit (commits i)).Shallow
  room : ∀ i, (FileStore.logOf (e.log ++ (commits i).appended)).length < UInt64.size

/-- The header that a commit to a record puts in place. -/
def storedBy (e : StoredExecution) (c : Commit) : StoredHeader :=
  ⟨c.header, (FileStore.logOf (e.log ++ c.appended)).length⟩

/-- The changes that put a header in place. -/
def swap (root : Path) (id : ExecutionId) (stored : StoredHeader) : List FileOp :=
  [.replace (temporaryPath root id) stored.encode, .rename (temporaryPath root id) (headerPath root id)]

/-- The temporary file holds the header of one of the processes, or has been put in place. -/
def Prepared (root : Path) (id : ExecutionId) (e : StoredExecution) (commits : ι → Commit)
    (race : Race ι) : Prop :=
  (∃ j, race.files.find? (temporaryPath root id) = some (.file (storedBy e (commits j)).encode)) ∨
    race.files.find? (temporaryPath root id) = none ∧ Renamed race.moves

/-- Where a process stands within its commit to a record. -/
inductive Stage (root : Path) (id : ExecutionId) (e : StoredExecution) (commits : ι → Commit)
    (race : Race ι) (i : ι) : FileProgram (Except StoreError Unit) → Prop
  | waiting (unmoved : ∀ move ∈ race.moves, move.1 ≠ i) :
      Stage root id e commits race i (commitProgram root (commits i)).run
  | writing {ops : List FileOp} (log : ∀ op ∈ ops, op.writesInto (logPath root id) = true)
      (early : ¬Late i race.moves) :
      Stage root id e commits race i (.inOrder (ops ++ swap root id (storedBy e (commits i))))
  | swapping (early : ¬Late i race.moves) (prepared : Prepared root id e commits race) :
      Stage root id e commits race i (.inOrder [.rename (temporaryPath root id) (headerPath root id)])
  | acknowledged (early : ¬Late i race.moves) (renamed : Renamed race.moves) :
      Stage root id e commits race i (.done (.ok ()))
  | refused (found : Nat) (late : Late i race.moves) :
      Stage root id e commits race i (.done (.error (.conflict id (commits i).expected found)))
  /-- Another process has renamed the temporary file. -/
  | robbed (early : ¬Late i race.moves) (renamed : Renamed race.moves) :
      Stage root id e commits race i (.done (.error (.io FileError.notFound.message)))

/-- Processes that have come somewhere with their commits to a record. -/
structure Fair (root : Path) (id : ExecutionId) (e : StoredExecution) (commits : ι → Commit)
    (race : Race ι) : Prop where
  laid : Laid root race.files
  made : Made root id race.files
  header : ∃ stored : StoredHeader,
    race.files.find? (headerPath root id) = some (.file stored.encode) ∧
      (¬Renamed race.moves ∧ stored = ⟨e.header, (FileStore.logOf e.log).length⟩ ∨
        Renamed race.moves ∧ ∃ j, stored = storedBy e (commits j))
  stage : ∀ i, Stage root id e commits race i (race.rest i)
  winner : Renamed race.moves → ∃ i, race.rest i = .done (.ok ())

variable {root : Path} {id : ExecutionId} {e : StoredExecution} {commits : ι → Commit} {c : Commit}
  {race : Race ι} {i j : ι}

/-- What a process makes of the header it reads: it goes on, or is refused if a header has been put in
place. -/
theorem Fair.judged (fair : Fair root id e commits race) (rivals : Rivals id e commits) (i : ι) :
    let judged := headerOf (race.files.perform (.read (headerPath root id))).1 >>=
      judgeCommit (commits i)
    (¬Renamed race.moves ∧ judged = .ok (FileStore.logOf e.log).length) ∨
      (Renamed race.moves ∧ ∃ found, judged = .error (.conflict id (commits i).expected found)) := by
  obtain ⟨stored, found, stands⟩ := fair.header
  have read : headerOf (race.files.perform (.read (headerPath root id))).1 =
      (Bytes.decode StoredHeader.decode stored.encode).map some := by
    rw [FileSystem.perform, FileSystem.read, found]
    rfl
  rcases stands with ⟨unchanged, rfl⟩ | ⟨renamed, j, rfl⟩
  · refine .inl ⟨unchanged, ?_⟩
    have version : e.header.unsigned.version = (commits i).expected := (rivals.expected i).symm
    rw [read, @StoredHeader.decode_of_shallow ⟨e.header, (FileStore.logOf e.log).length⟩
      rivals.before.1.header rivals.before.1.length rivals.before.2.header]
    change Except.map _ (e.header.unsigned.checkVersion (commits i).expected) = _
    rw [ExecutionHeader.checkVersion, if_pos version]
    rfl
  · refine .inr ⟨renamed, (commits j).header.version, ?_⟩
    have version : ¬(commits j).header.unsigned.version = (commits i).expected := by
      rw [rivals.expected i]
      exact rivals.newer j
    rw [read, @StoredHeader.decode_of_shallow (storedBy e (commits j)) (rivals.legible j).header
      (rivals.room j) (rivals.shallow j).header]
    change Except.map _ ((commits j).header.unsigned.checkVersion (commits i).expected) = _
    rw [ExecutionHeader.checkVersion, if_neg version, ← rivals.id j]
    rfl

/-- The changes of a commit to a record: some in the log, and the header. -/
theorem commitChanges_eq (root : Path) (e : StoredExecution) (c : Commit) :
    ∃ ops, (∀ op ∈ ops, op.writesInto (logPath root c.header.id) = true) ∧
      commitChanges root c (FileStore.logOf e.log).length = ops ++ swap root c.header.id (storedBy e c) := by
  refine ⟨_, ?_, by rw [commitChanges, ← List.length_append, ← FileStore.logOf_append]; rfl⟩
  split <;> simp [FileOp.writesInto]

/-- The record that a commit to another makes. -/
def successor (e : StoredExecution) (c : Commit) : StoredExecution := ⟨c.header, e.log ++ c.appended⟩

theorem Rivals.of_successor (rivals : Rivals id e commits) (i : ι) :
    (successor e (commits i)).Of Binary64.Legible where
  header := (rivals.legible i).header
  log c mem := by
    rcases List.mem_append.mp mem with mem | mem
    · exact rivals.before.1.log c mem
    · exact (rivals.legible i).appended c mem
  length := rivals.room i

theorem Rivals.shallow_successor (rivals : Rivals id e commits) (i : ι) :
    (successor e (commits i)).Shallow where
  header := (rivals.shallow i).header
  log c mem := by
    rcases List.mem_append.mp mem with mem | mem
    · exact rivals.before.2.log c mem
    · exact (rivals.shallow i).appended c mem

/-- Whoever is to move is not the one that was acknowledged. -/
theorem Fair.winner_of_turn (fair : Fair root id e commits race) {op : FileOp}
    {next : op.Reply → FileProgram (Except StoreError Unit)} (turn : race.rest i = .step op next)
    (renamed : Renamed race.moves) : ∃ k, k ≠ i ∧ race.rest k = .done (.ok ()) := by
  obtain ⟨k, done⟩ := fair.winner renamed
  refine ⟨k, ?_, done⟩
  rintro rfl
  rw [turn] at done
  cases done

/-- Putting the header in place is the last thing a process does. -/
theorem Stage.last {program : FileProgram (Except StoreError Unit)}
    (stage : Stage root id e commits race i program) {op : FileOp}
    {next : op.Reply → FileProgram (Except StoreError Unit)} (turn : program = .step op next)
    (rename : op.isRename = true) (reply : op.Reply) : ∃ result, next reply = .done result := by
  cases stage with
  | waiting unmoved =>
    rw [run_commitProgram, decided] at turn
    cases turn
    cases rename
  | @writing ops log early =>
    cases ops with
    | nil =>
      cases turn
      cases rename
    | cons o ops =>
      rw [List.cons_append, FileProgram.inOrder] at turn
      cases turn
      rw [(FileOp.of_writesInto (log op List.mem_cons_self)).1] at rename
      cases rename
  | swapping early prepared =>
    cases turn
    cases reply <;> exact ⟨_, rfl⟩
  | acknowledged early renamed | refused found late | robbed early renamed => cases turn

/-- What a process that is done was told. -/
theorem Stage.done {program : FileProgram (Except StoreError Unit)}
    (stage : Stage root id e commits race i program) {result : Except StoreError Unit}
    (done : program = .done result) :
    Renamed race.moves ∧
      (Late i race.moves ∧ (∃ found, result = .error (.conflict id (commits i).expected found)) ∨
        ¬Late i race.moves ∧ (result = .ok () ∨ result = .error (.io FileError.notFound.message))) := by
  cases stage with
  | waiting unmoved =>
    rw [run_commitProgram, decided] at done
    cases done
  | @writing ops log early => cases ops <;> cases done
  | swapping early prepared => cases done
  | acknowledged early renamed =>
    cases done
    exact ⟨renamed, .inr ⟨early, .inl rfl⟩⟩
  | refused found late =>
    cases done
    exact ⟨late.renamed, .inl ⟨late, found, rfl⟩⟩
  | robbed early renamed =>
    cases done
    exact ⟨renamed, .inr ⟨early, .inr rfl⟩⟩

/-- The changes of a commit to a record make it, also where the record was replaced and has grown. -/
theorem Rivals.run_changes {records : ExecutionId → Option StoredExecution} {fs : FileSystem}
    (rivals : Rivals id e commits) (holding : Holding root records fs) {now : StoredExecution}
    (held : records id = some now) (grown : e.log <+: now.log) (i : ι) :
    let ran := (FileProgram.inOrder (commitChanges root (commits i) (FileStore.logOf e.log).length)).run fs
    ran.1 = .ok () ∧ Holding root (Function.update records id (some (successor e (commits i)))) ran.2 := by
  have holds := holding.holds id
  rw [held] at holds
  have made := holds.made holding.laid
  have logged : FileStore.logOf e.log <+: fs.contentOf (filePath root id logFile) := by
    obtain ⟨more, log⟩ := grown
    refine .trans ?_ holds.2
    rw [← log, FileStore.logOf_append]
    exact List.prefix_append _ _
  rw [← rivals.id i] at made logged ⊢
  obtain ⟨ok, touches, holds⟩ := (changes_commit holding.laid made logged).keeps.run
  exact ⟨ok, holding.touched touches holds (by simpa using rivals.of_successor i)⟩

variable [DecidableEq ι]

/-- Where a process stands does not change when another moves. -/
theorem Stage.frame {op : FileOp} {next : op.Reply → FileProgram (Except StoreError Unit)}
    {program : FileProgram (Except StoreError Unit)} (stage : Stage root id e commits race j program)
    (other : i ≠ j)
    (prepared : Prepared root id e commits race → Prepared root id e commits (race.advance i op next)) :
    Stage root id e commits (race.advance i op next) j program := by
  have early (early : ¬Late j race.moves) : ¬Late j ((i, op) :: race.moves) := by
    rwa [late_cons_of_ne other]
  cases stage with
  | waiting unmoved => exact .waiting (List.forall_mem_cons.mpr ⟨other, unmoved⟩)
  | writing log here => exact .writing log (early here)
  | swapping here before => exact .swapping (early here) (prepared before)
  | acknowledged here renamed => exact .acknowledged (early here) (renamed.cons _)
  | refused found late => exact .refused found ((late_cons_of_ne other op).mpr late)
  | robbed here renamed => exact .robbed (early here) (renamed.cons _)

/-- The invariant after a move, from what the move does to the files and to its process. -/
theorem Fair.moved (fair : Fair root id e commits race)
    {op : FileOp} {next : op.Reply → FileProgram (Except StoreError Unit)} {names : List String}
    (touches : Touches root id names race.files (race.files.perform op).2)
    (header : ∃ stored : StoredHeader,
      (race.files.perform op).2.find? (headerPath root id) = some (.file stored.encode) ∧
        (¬Renamed ((i, op) :: race.moves) ∧ stored = ⟨e.header, (FileStore.logOf e.log).length⟩ ∨
          Renamed ((i, op) :: race.moves) ∧ ∃ j, stored = storedBy e (commits j)))
    (prepared : Prepared root id e commits race → Prepared root id e commits (race.advance i op next))
    (stage : Stage root id e commits (race.advance i op next) i (next (race.files.perform op).1))
    (winner : Renamed ((i, op) :: race.moves) →
      next (race.files.perform op).1 = .done (.ok ()) ∨ ∃ k, k ≠ i ∧ race.rest k = .done (.ok ())) :
    Fair root id e commits (race.advance i op next) where
  laid := touches.laid
  made := touches.kept fair.made
  header := header
  stage j := by
    by_cases here : j = i
    · subst here
      rw [show (race.advance j op next).rest j = _ from Function.update_self ..]
      exact stage
    · rw [show (race.advance i op next).rest j = _ from Function.update_of_ne here ..]
      exact (fair.stage j).frame (Ne.symm here) prepared
  winner renamed := by
    rcases winner renamed with done | ⟨k, other, done⟩
    · exact ⟨i, (Function.update_self ..).trans done⟩
    · exact ⟨k, (Function.update_of_ne other ..).trans done⟩

/-- A process reads the header. -/
theorem Fair.read (fair : Fair root id e commits race) (rivals : Rivals id e commits)
    (unmoved : ∀ move ∈ race.moves, move.1 ≠ i) {op : FileOp}
    {next : op.Reply → FileProgram (Except StoreError Unit)} (turn : race.rest i = .step op next)
    (here : race.rest i = (commitProgram root (commits i)).run) :
    Fair root id e commits (race.advance i op next) := by
  have winner := fair.winner_of_turn turn
  rw [here, run_commitProgram, decided, rivals.id i] at turn
  cases turn
  have unrenamed : Renamed ((i, FileOp.read (headerPath root id)) :: race.moves) ↔
      Renamed race.moves := renamed_cons rfl
  have early : ¬Late i race.moves := not_late_of_unmoved unmoved
  have touches : Touches root id [] race.files race.files := .refl fair.laid
  apply fair.moved touches
  · simp only [unrenamed]
    exact fair.header
  · simp only [Prepared, Race.advance, unrenamed]
    exact fun before => before
  · rcases fair.judged rivals i with ⟨unchanged, judged⟩ | ⟨renamed, found, judged⟩
    · obtain ⟨ops, log, changes⟩ := commitChanges_eq root e (commits i)
      rw [rivals.id i] at log changes
      simp only [judged, changes]
      refine .writing log ?_
      rintro (⟨-, -, renamed⟩ | late)
      · exact unchanged renamed
      · exact early late
    · simp only [judged]
      exact .refused found (.inl ⟨rfl, rfl, renamed⟩)
  · exact fun renamed => .inr (winner (unrenamed.mp renamed))

/-- Writing into a log whose directory is there succeeds. -/
theorem perform_writesInto {fs : FileSystem} {path : Path} (ready : fs.Ready path) {op : FileOp}
    (log : op.writesInto path = true) :
    ∃ answer content, fs.perform op = (.ok answer, fs.put path (.file content)) := by
  cases op with
  | resize p length =>
    obtain rfl : p = path := by simpa [FileOp.writesInto] using log
    exact ⟨_, _, ready.perform_resize length⟩
  | writeAt p offset bytes =>
    obtain rfl : p = path := by simpa [FileOp.writesInto] using log
    exact ⟨_, _, ready.perform_writeAt offset bytes⟩
  | _ => cases log

/-- An operation that spares the header leaves the invariant to its process. -/
theorem Fair.moved_aside (fair : Fair root id e commits race)
    {op : FileOp} {next : op.Reply → FileProgram (Except StoreError Unit)} {name : String}
    (touches : Touches root id [name] race.files (race.files.perform op).2)
    (other : headerFile ≠ name ∧ op.isRename = false)
    (temporary : (race.files.perform op).2.find? (temporaryPath root id) ∈
      [race.files.find? (temporaryPath root id), some (.file (storedBy e (commits i)).encode)])
    (turn : race.rest i = .step op next)
    (stage : Stage root id e commits (race.advance i op next) i (next (race.files.perform op).1)) :
    Fair root id e commits (race.advance i op next) := by
  have unrenamed : Renamed ((i, op) :: race.moves) ↔ Renamed race.moves := renamed_cons other.2
  apply fair.moved touches
  · obtain ⟨stored, found, stands⟩ := fair.header
    refine ⟨stored, ?_, by rwa [unrenamed]⟩
    rw [← found]
    exact touches.same id headerFile fun _ mem => other.1 (List.mem_singleton.mp mem)
  · intro before
    rw [List.mem_pair] at temporary
    rcases temporary with same | own
    · rw [Prepared, Race.advance, same, unrenamed]
      exact before
    · exact .inl ⟨i, own⟩
  · exact stage
  · exact fun renamed => .inr (fair.winner_of_turn turn (unrenamed.mp renamed))

/-- A process writes into the log. -/
theorem Fair.write (fair : Fair root id e commits race)
    {op : FileOp} {ops : List FileOp} {next : op.Reply → FileProgram (Except StoreError Unit)}
    (log : ∀ each ∈ op :: ops, each.writesInto (logPath root id) = true)
    (early : ¬Late i race.moves) (turn : race.rest i = .step op next)
    (here : race.rest i = .inOrder ((op :: ops) ++ swap root id (storedBy e (commits i)))) :
    Fair root id e commits (race.advance i op next) := by
  have again := here
  rw [turn, List.cons_append, FileProgram.inOrder] at again
  cases again
  rw [List.forall_mem_cons] at log
  have ready := fair.laid.ready fair.made logFile
  obtain ⟨answer, content, performed⟩ := perform_writesInto ready log.1
  have harmless := FileOp.of_writesInto log.1
  apply fair.moved_aside
  · rw [performed]
    exact fair.laid.put fair.made logFile content
  · exact ⟨by decide, harmless.1⟩
  · rw [performed]
    refine List.mem_pair.mpr (.inl ?_)
    exact (fair.laid.put fair.made logFile content).same id temporaryFile fun _ => by decide
  · exact turn
  · rw [performed]
    exact .writing log.2 (mt (late_cons_of_not_read harmless.2 i).mp early)

/-- A process writes its header into the temporary file. -/
theorem Fair.prepare (fair : Fair root id e commits race)
    {op : FileOp} {next : op.Reply → FileProgram (Except StoreError Unit)}
    (early : ¬Late i race.moves) (turn : race.rest i = .step op next)
    (here : race.rest i = .inOrder (swap root id (storedBy e (commits i)))) :
    Fair root id e commits (race.advance i op next) := by
  have again := here
  rw [turn, swap, FileProgram.inOrder] at again
  cases again
  have ready := fair.laid.ready fair.made temporaryFile
  have performed : race.files.perform (.replace (temporaryPath root id) (storedBy e (commits i)).encode) =
      _ := ready.perform_replace _
  have found : (race.files.put (filePath root id temporaryFile)
      (.file (storedBy e (commits i)).encode)).find? (temporaryPath root id) =
        some (.file (storedBy e (commits i)).encode) :=
    (FileSystem.find?_put filePath_ne_nil ..).trans (if_pos rfl)
  apply fair.moved_aside
  · rw [performed]
    exact fair.laid.put fair.made temporaryFile (storedBy e (commits i)).encode
  · exact ⟨by decide, rfl⟩
  · rw [performed]
    exact List.mem_pair.mpr (.inr found)
  · exact turn
  · rw [performed]
    refine .swapping (mt (late_cons_of_not_read rfl i).mp early) (.inl ⟨i, ?_⟩)
    rw [Race.advance, performed, found]

/-- A process puts the temporary file in the header's place, if it is still there. -/
theorem Fair.rename (fair : Fair root id e commits race)
    {op : FileOp} {next : op.Reply → FileProgram (Except StoreError Unit)}
    (early : ¬Late i race.moves) (prepared : Prepared root id e commits race)
    (turn : race.rest i = .step op next)
    (here : race.rest i = .inOrder [.rename (temporaryPath root id) (headerPath root id)]) :
    Fair root id e commits (race.advance i op next) := by
  have again := here
  rw [turn, FileProgram.inOrder] at again
  cases again
  have renamed : Renamed ((i, FileOp.rename (temporaryPath root id) (headerPath root id)) ::
      race.moves) := ⟨_, List.mem_cons_self, rfl⟩
  have still : ¬Late i ((i, FileOp.rename (temporaryPath root id) (headerPath root id)) ::
      race.moves) := mt (late_cons_of_not_read rfl i).mp early
  rcases prepared with ⟨j, found⟩ | ⟨none, before⟩
  · have ready := fair.laid.ready fair.made headerFile
    have performed : race.files.perform (.rename (temporaryPath root id) (headerPath root id)) = _ :=
      ready.perform_rename found
    have touches := fair.laid.rename fair.made temporaryFile headerFile (storedBy e (commits j)).encode
    apply fair.moved
    · rw [performed]
      exact touches
    · rw [performed]
      refine ⟨storedBy e (commits j), ?_, .inr ⟨renamed, j, rfl⟩⟩
      exact (FileSystem.find?_put filePath_ne_nil ..).trans (if_pos rfl)
    · refine fun _ => .inr ⟨?_, renamed⟩
      rw [Race.advance, performed]
      refine (FileSystem.find?_put_of_ne filePath_ne_nil _ _ ?_).trans
        (FileSystem.find?_removeTree_self filePath_ne_nil _)
      intro same
      exact absurd (filePath_inj same).2 (by decide)
    · rw [performed]
      exact .acknowledged still renamed
    · rw [performed]
      exact fun _ => .inl rfl
  · -- another process was faster
    have performed : race.files.perform (.rename (temporaryPath root id) (headerPath root id)) =
        (.error .notFound, race.files) := by
      have absent : race.files.read (temporaryPath root id) = .error .notFound :=
        fair.laid.read_absent none
      rw [FileSystem.perform, FileSystem.rename, absent]
      rfl
    have touches : Touches root id [] race.files race.files := .refl fair.laid
    obtain ⟨stored, stands, ⟨unchanged, -⟩ | ⟨-, winner⟩⟩ := fair.header
    · exact absurd before unchanged
    apply fair.moved
    · rw [performed]
      exact touches
    · rw [performed]
      exact ⟨stored, stands, .inr ⟨renamed, winner⟩⟩
    · refine fun _ => .inr ⟨?_, renamed⟩
      rw [Race.advance, performed]
      exact none
    · rw [performed]
      exact .robbed still renamed
    · exact fun _ => .inr (fair.winner_of_turn turn before)

/-- Every move keeps the invariant. -/
theorem Fair.step (fair : Fair root id e commits race) (rivals : Rivals id e commits)
    {op : FileOp} {next : op.Reply → FileProgram (Except StoreError Unit)}
    (turn : race.rest i = .step op next) : Fair root id e commits (race.advance i op next) := by
  have stage := fair.stage i
  generalize here : race.rest i = program at stage
  cases stage with
  | waiting unmoved => exact fair.read rivals unmoved turn here
  | @writing ops log early =>
    cases ops with
    | nil => exact fair.prepare early turn here
    | cons o ops =>
      have same : o = op := by
        have again := here
        rw [turn, List.cons_append, FileProgram.inOrder] at again
        cases again
        rfl
      subst same
      exact fair.write log early turn here
  | swapping early prepared => exact fair.rename early prepared turn here
  | acknowledged early renamed | refused found late | robbed early renamed =>
    rw [turn] at here
    cases here

variable {files : FileSystem} {records : ExecutionId → Option StoredExecution}

theorem Reaches.fair (holding : Holding root records files) (held : records id = some e)
    (rivals : Rivals id e commits) (reaches : Reaches (begin root commits files) race) :
    Fair root id e commits race := by
  induction reaches with
  | refl =>
    have holds := holding.holds id
    rw [held] at holds
    have unrenamed : ¬Renamed ([] : List (ι × FileOp)) := by
      rintro ⟨move, mem, -⟩
      cases mem
    exact ⟨holding.laid, holds.made holding.laid, ⟨_, holds.1, .inl ⟨unrenamed, rfl⟩⟩,
      fun i => .waiting (by intro move mem; cases mem), fun renamed => absurd renamed unrenamed⟩
  | move reaches i turn ih => exact ih.step rivals turn

/-- As long as only one process has moved, it is on its way to make its commit. -/
theorem Reaches.alone (holding : Holding root records files) (held : records id = some e)
    (rivals : Rivals id e commits) (reaches : Reaches (begin root commits files) race)
    (only : ∀ move ∈ race.moves, move.1 = i) :
    (race.rest i).Keeps (fun _ => True)
        (fun result left => result = .ok () ∧
          Holding root (Function.update records id (some (successor e (commits i)))) left) race.files ∧
      ∀ j, j ≠ i → race.rest j = (commitProgram root (commits j)).run := by
  induction reaches with
  | refl =>
    refine ⟨?_, fun j _ => rfl⟩
    have same : (StoreCall.commit (commits i)).id = id := rivals.id i
    have current : e.header.version = (commits i).expected := (rivals.expected i).symm
    have accepted : StoreCall.verdict (.commit (commits i)) (records (StoreCall.commit (commits i)).id) =
        .ok (successor e (commits i)) := by
      rw [same, held, StoreCall.verdict_of_shallow (by simpa using rivals.before.2.header)]
      change (e.header.checkVersion (commits i).expected).map _ = _
      rw [ExecutionHeader.checkVersion, if_pos current]
      rfl
    have replaces := holding.replaces accepted (rivals.of_successor i)
    rw [Replaces, same] at replaces
    exact replaces.weaken (fun _ _ => trivial) fun _ _ after => after
  | @move race reaches k op next turn ih =>
    have only : k = i ∧ ∀ move ∈ race.moves, move.1 = i := List.forall_mem_cons.mp only
    obtain ⟨rfl, earlier⟩ := only
    obtain ⟨keeps, others⟩ := ih earlier
    rw [turn] at keeps
    refine ⟨?_, fun j other => (Function.update_of_ne other ..).trans (others j other)⟩
    rw [show (race.advance k op next).rest k = _ from Function.update_self ..]
    exact keeps.2

/-- Where one process puts its header in place before any other has begun, its commit is made and the
others are refused. -/
theorem Reaches.serial (holding : Holding root records files) (held : records id = some e)
    (rivals : Rivals id e commits) (reaches : Reaches (begin root commits files) race)
    {later earlier : List (ι × FileOp)} {op : FileOp} (rename : op.isRename = true)
    (moves : race.moves = later ++ (i, op) :: earlier) (only : ∀ move ∈ earlier, move.1 = i) :
    race.rest i = .done (.ok ()) ∧
      Holding root (Function.update records id (some (successor e (commits i)))) race.files ∧
      ∀ j, j ≠ i → race.rest j = (commitProgram root (commits j)).run ∨
        ∃ found, race.rest j = .done (.error (.conflict id (commits j).expected found)) := by
  induction reaches generalizing later with
  | refl => cases later <;> cases moves
  | @move race reaches k o next turn ih =>
    cases later with
    | nil =>
      obtain ⟨⟨rfl, rfl⟩, rfl⟩ : (k = i ∧ o = op) ∧ race.moves = earlier := by
        simpa [Race.advance] using moves
      obtain ⟨keeps, others⟩ := reaches.alone holding held rivals only
      have last := ((reaches.fair holding held rivals).stage k).last turn rename
        (race.files.perform o).1
      obtain ⟨result, done⟩ := last
      rw [turn] at keeps
      have after := keeps.2
      rw [done] at after
      obtain ⟨-, rfl, made⟩ := after
      refine ⟨(Function.update_self ..).trans done, made, fun j other => ?_⟩
      exact .inl ((Function.update_of_ne other ..).trans (others j other))
    | cons move later =>
      obtain ⟨-, before⟩ : (k, o) = move ∧ race.moves = later ++ (i, op) :: earlier := by
        simpa [Race.advance] using moves
      obtain ⟨done, made, others⟩ := ih before
      have apart : k ≠ i := by
        rintro rfl
        rw [turn] at done
        cases done
      have fair := reaches.fair holding held rivals
      have renamed : Renamed race.moves := ⟨(i, op), by rw [before]; simp, rename⟩
      rcases others k apart with here | ⟨found, refused⟩
      case inr =>
        rw [turn] at refused
        cases refused
      have again := turn
      rw [here, run_commitProgram, decided, rivals.id k] at again
      cases again
      rcases fair.judged rivals k with ⟨unchanged, -⟩ | ⟨-, found, judged⟩
      · exact absurd renamed unchanged
      refine ⟨(Function.update_of_ne (Ne.symm apart) ..).trans done, made, fun j other => ?_⟩
      by_cases same : j = k
      · subst same
        refine .inr ⟨found, (Function.update_self ..).trans ?_⟩
        simp only [judged]
      · rcases others j other with still | refused
        · exact .inl ((Function.update_of_ne same ..).trans still)
        · obtain ⟨found, refused⟩ := refused
          exact .inr ⟨found, (Function.update_of_ne same ..).trans refused⟩

/-- Of processes that commit to one version of an execution, those that read the header after it was
replaced are refused, and no others; if any is done, one is acknowledged. It is the only one, and its commit
is what can be read, if no other began before it had put its header in place. -/
theorem Reaches.refused_iff_late (holding : Holding root records files) (held : records id = some e)
    (rivals : Rivals id e commits) (reaches : Reaches (begin root commits files) race) :
    (∀ i result, race.rest i = .done result →
      ((∃ found, result = .error (.conflict id e.header.version found)) ↔ Late i race.moves) ∧
      (¬Late i race.moves → result = .ok () ∨ result = .error (.io FileError.notFound.message))) ∧
    (∀ i result, race.rest i = .done result → Renamed race.moves ∧ ∃ j, race.rest j = .done (.ok ())) ∧
    ∀ i later op earlier, op.isRename = true → race.moves = later ++ (i, op) :: earlier →
      (∀ move ∈ earlier, move.1 = i) →
        race.rest i = .done (.ok ()) ∧
        (∀ j result, j ≠ i → race.rest j = .done result →
          ∃ found, result = .error (.conflict id e.header.version found)) ∧
        ExecutionStore.load (FileStore.mk root race.files) id =
          .ok (some (ExecutionStore.assemble (commits i).header (e.log ++ (commits i).appended)).unsigned) := by
  have fair := reaches.fair holding held rivals
  refine ⟨fun i result done => ?_, fun i result done => ?_, ?_⟩
  · obtain ⟨-, told⟩ := (fair.stage i).done done
    rw [rivals.expected i] at told
    rcases told with ⟨late, refused⟩ | ⟨early, rfl | rfl⟩
    · exact ⟨iff_of_true refused late, fun early => absurd late early⟩
    · exact ⟨iff_of_false (by simp) early, fun _ => .inl rfl⟩
    · exact ⟨iff_of_false (by simp) early, fun _ => .inr rfl⟩
  · obtain ⟨renamed, -⟩ := (fair.stage i).done done
    exact ⟨renamed, fair.winner renamed⟩
  · intro i later op earlier rename moves only
    obtain ⟨done, made, others⟩ := reaches.serial holding held rivals rename moves only
    refine ⟨done, fun j result other ended => ?_, ?_⟩
    · rcases others j other with here | ⟨found, refused⟩
      · rw [ended, run_commitProgram, decided] at here
        cases here
      · rw [ended] at refused
        cases refused
        exact ⟨found, by rw [rivals.expected j]⟩
    · rw [made.load, Function.update_self]
      exact if_pos (rivals.shallow_successor i)

/-- A process goes on to its end while the others rest. -/
theorem Reaches.run {start : Race ι} (reaches : Reaches start race) (i : ι) :
    ∃ later, Reaches start later ∧ later.files = ((race.rest i).run race.files).2 ∧
      later.rest i = .done ((race.rest i).run race.files).1 ∧
      ∀ j, j ≠ i → later.rest j = race.rest j := by
  generalize here : race.rest i = program
  induction program generalizing race with
  | done result => exact ⟨race, reaches, rfl, here, fun _ _ => rfl⟩
  | step op next ih =>
    obtain ⟨later, reaches, files, done, others⟩ := ih _ (reaches.move i here) (Function.update_self ..)
    exact ⟨later, reaches, files, done, fun j other =>
      (others j other).trans (Function.update_of_ne other ..)⟩

/-- A process reads the header when none has been put in place. -/
theorem Reaches.read (holding : Holding root records files) (held : records id = some e)
    (rivals : Rivals id e commits) (reaches : Reaches (begin root commits files) race)
    (unchanged : ¬Renamed race.moves) (i : ι) (here : race.rest i = (commitProgram root (commits i)).run) :
    ∃ later, Reaches (begin root commits files) later ∧ later.files = race.files ∧
      ¬Renamed later.moves ∧
      later.rest i = .inOrder (commitChanges root (commits i) (FileStore.logOf e.log).length) ∧
      ∀ j, j ≠ i → later.rest j = race.rest j := by
  rw [run_commitProgram, decided, rivals.id i] at here
  refine ⟨_, reaches.move i here, rfl, mt (renamed_cons rfl).mp unchanged, ?_, fun j other =>
    Function.update_of_ne other ..⟩
  refine (Function.update_self ..).trans ?_
  rcases (reaches.fair holding held rivals).judged rivals i with ⟨-, judged⟩ | ⟨renamed, -⟩
  · simp only [judged]
  · exact absurd renamed unchanged

/-- Of two processes that both read the header before either replaces it, both may be acknowledged, and
then nothing is left of what one of them was told is stored. -/
theorem overwrites (holding : Holding root records files) (held : records id = some e)
    (rivals : Rivals id e commits) (apart : i ≠ j) :
    ∃ race, Reaches (begin root commits files) race ∧ race.rest i = .done (.ok ()) ∧
      race.rest j = .done (.ok ()) ∧
      Holding root (Function.update records id (some (successor e (commits j)))) race.files := by
  have unchanged : ¬Renamed (begin root commits files).moves := by
    rintro ⟨move, mem, -⟩
    cases mem
  -- both read the header
  obtain ⟨one, reaches, same, unchanged, toWrite, others⟩ :=
    Reaches.read holding held rivals .refl unchanged i rfl
  obtain ⟨two, reaches, same', -, toOverwrite, others'⟩ :=
    reaches.read holding held rivals unchanged j (others j (Ne.symm apart))
  rw [← others' i apart] at toWrite
  have still : two.files = files := same'.trans same
  -- one process does all it has to do, and then the other
  obtain ⟨three, reaches, files₃, done, others⟩ := reaches.run i
  rw [toWrite, still] at files₃ done
  obtain ⟨ok, made⟩ := rivals.run_changes holding held List.prefix_rfl i
  rw [ok] at done
  rw [← files₃] at made
  obtain ⟨four, reaches, files₄, done', others'⟩ := reaches.run j
  rw [others j (Ne.symm apart), toOverwrite] at files₄ done'
  obtain ⟨ok, made⟩ := rivals.run_changes made (Function.update_self ..) (List.prefix_append _ _) j
  rw [ok] at done'
  rw [← files₄, Function.update_idem] at made
  exact ⟨four, reaches, (others' i apart).trans done, done', made⟩

end Race

namespace Race

open FileStore FileStore.Sample

namespace Sample

/-- A record without checkpoints. -/
def blank : StoredExecution := ⟨header 0, []⟩

/-- Two commits of its first checkpoint. -/
def commits (second : Bool) : Commit := commit (if second then "b" else "a")

theorem legible {call : StoreCall} (whole : call.Of Binary64.Whole) : call.Of Binary64.Legible :=
  StoreCall.Of.mono (fun _ => Binary64.Whole.legible) whole

theorem legible_blank : blank.Of Binary64.Legible :=
  ⟨(legible whole_insertion).header, (by intro c mem; cases mem), by decide⟩

theorem rivals : Rivals .nil blank commits where
  before := ⟨legible_blank, shallow_context, by intro c mem; cases mem⟩
  id _ := rfl
  expected _ := rfl
  newer _ := show (1 : Nat) ≠ 0 by decide
  legible second := legible (whole_commit _)
  shallow second := shallow_commit _
  room second := by cases second <;> decide +kernel

/-- The files after an insertion into an empty directory. -/
def inserted : FileSystem := (insertion.perform opened).2.files

theorem holding : Holding ["data"] (Function.update (fun _ => none) .nil (some blank)) inserted := by
  obtain ⟨-, empty⟩ := holding_of_open fresh openAt_data
  have accepted : StoreCall.verdict insertion none = .ok blank := rfl
  exact (empty.replaces accepted legible_blank).run.2

end Sample

/-- Both processes read the header before either replaces it, and neither is refused. -/
theorem Reaches.refused_iff_late_of_overlap :
    ∃ race, Reaches (begin ["data"] Sample.commits Sample.inserted) race ∧
      ¬Late false race.moves ∧ ¬Late true race.moves ∧
      race.rest false = .done (.ok ()) ∧ race.rest true = .done (.ok ()) := by
  obtain ⟨race, reaches, done, done', -⟩ :=
    overwrites Sample.holding (Function.update_self ..) Sample.rivals (show false ≠ true by decide)
  obtain ⟨told, -, -⟩ := reaches.refused_iff_late Sample.holding (Function.update_self ..) Sample.rivals
  refine ⟨race, reaches, ?_, ?_, done, done'⟩
  · exact fun late => by simpa using ((told false _ done).1.mpr late)
  · exact fun late => by simpa using ((told true _ done').1.mpr late)

/-- Two commits of one version are both acknowledged, and what one of them stored is gone. -/
theorem acknowledged_and_lost :
    ∃ race, Reaches (begin ["data"] Sample.commits Sample.inserted) race ∧
      race.rest false = .done (.ok ()) ∧ race.rest true = .done (.ok ()) ∧
      ∃ record, ExecutionStore.load (FileStore.mk ["data"] race.files) .nil = .ok (some record) ∧
        record.checkpoints.map (·.nodeName) = ["b"] := by
  obtain ⟨race, reaches, done, done', made⟩ :=
    overwrites Sample.holding (Function.update_self ..) Sample.rivals (show false ≠ true by decide)
  have loaded := made.load .nil
  rw [Function.update_self] at loaded
  exact ⟨race, reaches, done, done', _,
    loaded.trans (if_pos (Sample.rivals.shallow_successor true)), rfl⟩

end Race

end WorkflowEngine
