import WorkflowEngine.Proofs.Store.Origin

/-!
# The directory of executions

A store is opened by making its directory. From then on it makes directories of executions in there, and
writes and renames files in them: the way to its directory stands, and nothing else is touched. A store
that is opened once more is found as it was left.
-/
namespace WorkflowEngine

/-- Neither of two paths leads to the other. -/
structure Path.Apart (path other : Path) : Prop where
  notBelow : ¬other <+: path
  notAbove : ¬path <+: other

namespace FileSystem

variable {fs : FileSystem} {path above : Path}

theorem prefix_of_way (mem : above ∈ way path) : above <+: path := by
  obtain ⟨n, -, rfl⟩ := List.mem_map.mp mem
  exact List.take_prefix n path

/-- No file is written in the place of a directory. -/
theorem ne_of_writable (writable : fs.checkWritable path = .ok ())
    (there : fs.find? above = some .directory) : above ≠ path := by
  rintro rfl
  rw [checkWritable, there] at writable
  cases writable

theorem ne_nil_of_writable (writable : fs.checkWritable path = .ok ()) : path ≠ [] :=
  (ne_of_writable writable fs.find?_nil).symm

theorem find?_changed_put (there : fs.find? above = some .directory) (content : Bytes) :
    (fs.changed (fs.checkWritable path >>= fun _ => .ok (fs.put path (.file content)))).2.find? above =
      some .directory := by
  cases writable : fs.checkWritable path with
  | error e => exact there
  | ok _ =>
    apply (find?_put_of_ne (ne_nil_of_writable writable) fs _ _).trans there
    exact ne_of_writable writable there

end FileSystem

namespace FileStore

variable {root path : Path} {fs : FileSystem} {op : FileOp} {header : ExecutionHeader} {c : Commit}

/-- What a store does to files once it is open. -/
inductive Handles (root : Path) : FileOp → Prop
  | make (id : ExecutionId) : Handles root (.createDirectories (directory root id))
  | replace (id : ExecutionId) (name : String) (content : Bytes) :
      Handles root (.replace (filePath root id name) content)
  | resize (id : ExecutionId) (name : String) (length : Nat) :
      Handles root (.resize (filePath root id name) length)
  | writeAt (id : ExecutionId) (name : String) (offset : Nat) (bytes : Bytes) :
      Handles root (.writeAt (filePath root id name) offset bytes)
  | rename (id : ExecutionId) (source target : String) :
      Handles root (.rename (filePath root id source) (filePath root id target))

theorem handles_of_headerChanges {stored : StoredHeader} (mem : op ∈ headerChanges root stored) :
    Handles root op := by
  rw [headerChanges, List.mem_pair] at mem
  rcases mem with rfl | rfl
  · exact .replace _ temporaryFile _
  · exact .rename _ temporaryFile headerFile

theorem handles_of_insertChanges (mem : op ∈ insertChanges root header) : Handles root op := by
  rcases List.mem_cons.mp mem with rfl | mem
  · exact .make _
  · exact handles_of_headerChanges mem

theorem handles_of_commitChanges {committed : Nat} (mem : op ∈ commitChanges root c committed) :
    Handles root op := by
  rcases List.mem_append.mp mem with mem | mem
  · split at mem
    · cases mem
    · rcases List.mem_pair.mp mem with rfl | rfl
      · exact .resize _ logFile _
      · exact .writeAt _ logFile _ _
  · exact handles_of_headerChanges mem

section

variable {P : FileSystem → Prop}
  (kept : ∀ {fs : FileSystem} {op : FileOp}, Handles root op → P fs → P (fs.perform op).2)

include kept

theorem kept_inOrder {ops : List FileOp} (handles : ∀ op ∈ ops, Handles root op) (holds : P fs) :
    P (FileProgram.run (.inOrder ops) fs).2 := by
  induction ops generalizing fs with
  | nil => exact holds
  | cons op ops ih =>
    rw [List.forall_mem_cons] at handles
    have here := kept handles.1 holds
    rw [FileProgram.inOrder, FileProgram.run]
    rcases performed : fs.perform op with ⟨reply, next⟩
    rw [performed] at here
    cases reply with
    | error e => exact here
    | ok answer => exact ih handles.2 here

theorem kept_decided {α : Type} {id : ExecutionId} {judge : Option StoredHeader → Except StoreError α}
    {changes : α → List FileOp} (handles : ∀ a, ∀ op ∈ changes a, Handles root op) (holds : P fs) :
    P (FileProgram.run (decided root id judge changes) fs).2 := by
  rw [decided, FileProgram.run]
  dsimp only [FileSystem.perform]
  cases headerOf (fs.read (headerPath root id)) >>= judge with
  | error e => exact holds
  | ok a => exact kept_inOrder kept (handles a) holds

/-- What every operation of a store keeps is kept whatever becomes of the store. -/
theorem kept_of_becomes {store later : FileStore} (here : store.root = root)
    (becomes : Becomes store later) (holds : P store.files) : later.root = root ∧ P later.files := by
  induction becomes with
  | refl => exact ⟨here, holds⟩
  | @insert later _ header ih =>
    obtain ⟨rfl, holds⟩ := ih
    refine ⟨rfl, ?_⟩
    change P (FileProgram.run (insertProgram later.root header).run later.files).2
    rw [run_insertProgram]
    exact kept_decided kept (fun _ _ => handles_of_insertChanges) holds
  | @commit later _ c ih =>
    obtain ⟨rfl, holds⟩ := ih
    refine ⟨rfl, ?_⟩
    change P (FileProgram.run (commitProgram later.root c).run later.files).2
    rw [run_commitProgram]
    exact kept_decided kept (fun _ _ => handles_of_commitChanges) holds

end

/-- A directory on the way to the root is neither written over nor renamed. -/
theorem Handles.directory (handles : Handles root op) {above : Path} (mem : above ∈ FileSystem.way root)
    (there : fs.find? above = some .directory) : (fs.perform op).2.find? above = some .directory := by
  cases handles with
  | make id =>
    rw [FileSystem.perform]
    cases created : fs.createDirectories (FileStore.directory root id) with
    | error e => exact there
    | ok made => exact (FileSystem.foldlM_makeDirectory_ok created).2 above there
  | replace | resize | writeAt => exact FileSystem.find?_changed_put there _
  | rename id source target =>
    rw [FileSystem.perform, FileSystem.rename]
    cases fs.read (filePath root id source) with
    | error e => exact there
    | ok content =>
      cases writable : fs.checkWritable (filePath root id target) with
      | error e => exact there
      | ok _ =>
        apply (FileSystem.find?_put_of_ne filePath_ne_nil (fs.removeTree _) _ _).trans
        · rw [FileSystem.find?_removeTree _, there]
          -- a file of an execution lies deeper than the root
          intro start
          have deep := start.length_le
          have short := length_of_way mem
          simp only [filePath, FileStore.directory, List.length_append, List.length_singleton] at deep
          omega
        · exact FileSystem.ne_of_writable writable there

theorem root_prefix_filePath (id : ExecutionId) (name : String) : root <+: filePath root id name :=
  ⟨[id.toText, name], by simp [filePath, FileStore.directory]⟩

/-- What is written in a file of an execution is not seen elsewhere. -/
theorem find?_changed_of_apart (apart : path.Apart root) (id : ExecutionId) (name : String)
    (content : Bytes) (check : Except FileError Unit) :
    (fs.changed (check >>= fun _ => .ok (fs.put (filePath root id name) (.file content)))).2.find? path =
      fs.find? path := by
  rcases fs.changed_put (filePath root id name) content check with same | put
  · rw [same]
  · rw [put]
    apply FileSystem.find?_put_of_ne filePath_ne_nil
    rintro rfl
    exact apart.notBelow (root_prefix_filePath id name)

/-- Apart from its directory a store touches nothing. -/
theorem Handles.apart (handles : Handles root op) (apart : path.Apart root) :
    (fs.perform op).2.find? path = fs.find? path := by
  cases handles with
  | make id =>
    rw [FileSystem.perform]
    cases created : fs.createDirectories (FileStore.directory root id) with
    | error e => rfl
    | ok made =>
      apply FileSystem.find?_of_createDirectories created
      intro mem
      obtain above | below := List.prefix_concat_iff.mp (FileSystem.prefix_of_way mem)
      · exact apart.notBelow (above ▸ List.prefix_append root _)
      · exact apart.notAbove below
  | replace id name => exact find?_changed_of_apart apart id name _ _
  | resize id name => exact find?_changed_of_apart apart id name _ _
  | writeAt id name => exact find?_changed_of_apart apart id name _ _
  | rename id source target =>
    rw [FileSystem.perform, FileSystem.rename]
    cases fs.read (filePath root id source) with
    | error e => rfl
    | ok content =>
      cases fs.checkWritable (filePath root id target) with
      | error e => rfl
      | ok _ =>
        apply (FileSystem.find?_put_of_ne filePath_ne_nil (fs.removeTree _) _ _).trans
        · apply FileSystem.find?_removeTree
          exact fun start => apart.notBelow ((root_prefix_filePath id source).trans start)
        · rintro rfl
          exact apart.notBelow (root_prefix_filePath id target)

/-- Whatever becomes of a store, its directory stays. -/
theorem reaches_of_becomes {store later : FileStore} (becomes : Becomes store later)
    (reaches : store.files.Reaches store.root) :
    later.root = store.root ∧ later.files.Reaches store.root := by
  apply kept_of_becomes (P := fun fs => fs.Reaches store.root) _ rfl becomes reaches
  intro fs op handles reaches above mem
  exact handles.directory mem (reaches above mem)

/-- Whatever becomes of a store, what is apart from its directory stays as it is. -/
theorem find?_of_becomes {store later : FileStore} (becomes : Becomes store later)
    (apart : path.Apart store.root) : later.files.find? path = store.files.find? path := by
  apply And.right
  apply kept_of_becomes (P := fun fs => fs.find? path = store.files.find? path) _ rfl becomes rfl
  intro fs op handles same
  exact (handles.apart apart).trans same

/-- To open a store touches no header and nothing apart from its directory, which it makes if it is not
there. -/
theorem openAt_ok {opened : FileStore} (opens : openAt root fs = .ok opened) :
    opened.root = root ∧ opened.files.Reaches root ∧ Aside root fs opened.files ∧
      ∀ path : Path, path.Apart root → opened.files.find? path = fs.find? path := by
  unfold openAt at opens
  split at opens
  case h_2 => cases opens
  case h_1 made created =>
    cases opens
    refine ⟨rfl, FileSystem.reaches_of_createDirectories created, fun id => ?_, fun path apart => ?_⟩
    · apply FileSystem.find?_of_createDirectories created
      intro mem
      exact filePath_ne_way mem rfl
    · apply FileSystem.find?_of_createDirectories created
      intro mem
      exact apart.notAbove (FileSystem.prefix_of_way mem)

/-- Under an id that can be told the origin of a header can be read. -/
theorem loadHeader_of_origin {store : FileStore} {id : ExecutionId} {origin : Origin}
    (found : OriginStore.origin? store id = some origin) :
    ∃ header, ExecutionStore.loadHeader store id = .ok (some header) := by
  replace found : originOf (store.files.find? (headerPath store.root id)) = some origin := found
  change ∃ header, Except.map _ (FileProgram.run (readHeader store.root id).run store.files).1 = _
  rw [run_readHeader, FileSystem.read]
  cases there : store.files.find? (headerPath store.root id) with
  | none =>
    rw [there] at found
    cases found
  | some node =>
    rw [there] at found
    cases node with
    | directory => cases found
    | file content =>
      cases decoded : Bytes.decode StoredHeader.decode content with
      | error e =>
        simp only [originOf, decoded] at found
        cases found
      | ok stored =>
        simp only [headerOf, decoded]
        exact ⟨stored.header, rfl⟩

theorem loadHeader_of_absent {store : FileStore} {id : ExecutionId}
    (absent : store.files.find? (headerPath store.root id) = none) (header : ExecutionHeader) :
    ExecutionStore.loadHeader store id ≠ .ok (some header) := by
  change Except.map _ (FileProgram.run (readHeader store.root id).run store.files).1 ≠ _
  rw [run_readHeader, FileSystem.read, absent]
  cases store.files.absent (headerPath store.root id) <;>
    · intro read
      cases read

end FileStore

end WorkflowEngine
