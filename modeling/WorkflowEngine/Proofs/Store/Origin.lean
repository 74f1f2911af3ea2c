import WorkflowEngine.Proofs.Json.Front
import WorkflowEngine.Proofs.Store.Holding
import WorkflowEngine.Proofs.Store.Lawful
import WorkflowEngine.Store.Fault

/-!
# Where headers come from

Of a header that is read back, its id and the id of its definition are what was written, in every store:
in a lawful one, where readers see what was written, and in files as well, where other parts of a header
may be lost in its text. Nothing is asked of the files, which may hold anything besides.
-/
namespace WorkflowEngine

/-- Which execution a header is of, and of which definition. -/
structure Origin where
  id : ExecutionId
  workflowId : WorkflowId

def ExecutionHeader.origin (header : ExecutionHeader) : Origin := ⟨header.id, header.workflowId⟩

/-- A store of which it is known where the headers come from that are read under an id. -/
class OriginStore (σ : Type) [ExecutionStore σ] where
  origin? : σ → ExecutionId → Option Origin
  origin_of_header : ∀ {store id header},
    ExecutionStore.loadHeader store id = .ok (some header) → origin? store id = some header.origin
  origin_of_insert : ∀ {store header id origin},
    origin? (ExecutionStore.insert store header).2 id = some origin →
      origin? store id = some origin ∨ id = header.id ∧ origin = header.origin
  origin_of_commit : ∀ {store} {c : Commit} {id origin},
    origin? (ExecutionStore.commit store c).2 id = some origin →
      origin? store id = some origin ∨ id = c.header.id ∧ origin = c.header.origin
  absent_of_insert : ∀ {store header},
    (ExecutionStore.insert store header).1 = .ok () → origin? store header.id = none

instance (priority := low) {σ : Type} [ExecutionStore σ] [LawfulStore σ] : OriginStore σ where
  origin? store id := (LawfulStore.stored store id).map (·.header.origin)
  origin_of_header := by
    intro store id header loaded
    obtain ⟨execution, stored, rfl⟩ :=
      Option.map_eq_some_iff.mp (LawfulStore.loadHeader_ok loaded).symm
    rw [stored]
    rfl
  origin_of_insert := by
    intro store header id origin found
    cases result : (ExecutionStore.insert store header).1 with
    | error cause =>
      rw [LawfulStore.insert_error result] at found
      exact .inl found
    | ok _ =>
      rw [(LawfulStore.insert_ok result).2, Function.update_apply] at found
      split at found
      case isTrue here =>
        cases found
        exact .inr ⟨here, rfl⟩
      case isFalse => exact .inl found
  origin_of_commit := by
    intro store c id origin found
    cases result : (ExecutionStore.commit store c).1 with
    | error cause =>
      rw [LawfulStore.commit_error result] at found
      exact .inl found
    | ok _ =>
      obtain ⟨before, -, -, stored⟩ := LawfulStore.commit_ok result
      rw [stored, Function.update_apply] at found
      split at found
      case isTrue here =>
        cases found
        exact .inr ⟨here, rfl⟩
      case isFalse => exact .inl found
  absent_of_insert := by
    intro store header result
    rw [(LawfulStore.insert_ok result).1]
    rfl

theorem ExecutionHeader.ofParts_ok {heldBack : Bool} {parts : Json.Parts} {header : ExecutionHeader}
    (reads : ofParts heldBack parts = .ok header) :
    parts.required 0 "id" Uuid.decode = .ok header.id ∧
      parts.required 1 "workflowId" Json.Decode.string = .ok header.workflowId := by
  obtain ⟨id, first, reads⟩ := ok_of_bind reads
  obtain ⟨workflowId, second, reads⟩ := ok_of_bind reads
  iterate 10 obtain ⟨_, -, reads⟩ := ok_of_bind reads
  cases reads
  exact ⟨first, second⟩

/-- A header that is read back at all tells where it comes from. -/
theorem StoredHeader.origin_of_decode {stored read : StoredHeader}
    (reads : Bytes.decode decode stored.encode = .ok read) :
    read.header.origin = stored.header.origin := by
  simp only [Bytes.decode, encode, Bytes.text?_ofText, Json.decodeText] at reads
  cases parsed : Json.read stored.toJson.pretty with
  | error cause =>
    rw [parsed] at reads
    cases reads
  | ok json =>
    obtain ⟨others, rfl⟩ := @Json.read_pretty_front ("id", stored.header.id.toText)
      [("workflowId", stored.header.workflowId)] (stored.toJson.entries.drop 2)
      (List.cons_ne_nil _ _) json parsed
    simp only [parsed] at reads
    split at reads
    case h_2 => cases reads
    case h_1 decoded =>
      cases reads
      obtain ⟨parts, named, rest⟩ := ok_of_bind decoded
      cases named
      obtain ⟨header, parts, rest⟩ := ok_of_bind rest
      obtain ⟨_, -, rest⟩ := ok_of_bind rest
      cases rest
      obtain ⟨id, workflowId⟩ := ExecutionHeader.ofParts_ok parts
      have id := (Uuid.decode_toJson _).symm.trans (Json.Parts.required_ok List.mem_cons_self id)
      have workflowId := Json.Parts.required_ok
        (List.mem_cons_of_mem _ List.mem_cons_self) workflowId
      rw [ExecutionHeader.origin, ← Except.ok.inj id, ← Except.ok.inj workflowId]
      rfl

theorem FileSystem.changed_put (fs : FileSystem) (path : Path) (content : Bytes)
    (check : Except FileError Unit) :
    (fs.changed (check >>= fun _ => .ok (fs.put path (.file content)))).2 = fs ∨
      (fs.changed (check >>= fun _ => .ok (fs.put path (.file content)))).2 =
        fs.put path (.file content) := by
  cases check with
  | error e => exact .inl rfl
  | ok _ => exact .inr rfl

theorem FileSystem.find?_of_replaced {fs : FileSystem} {path : Path} {content : Bytes} {answer : Unit}
    (below : path ≠ []) (performed : (fs.perform (.replace path content)).1 = .ok answer) :
    (fs.perform (.replace path content)).2.find? path = some (.file content) := by
  rw [FileSystem.perform, FileSystem.replace] at performed ⊢
  cases check : fs.checkWritable path with
  | error e =>
    rw [check] at performed
    cases performed
  | ok _ => exact (FileSystem.find?_put below fs _ path).trans (if_pos rfl)

namespace FileStore

variable {root : Path} {fs mid left : FileSystem} {header : ExecutionHeader} {name : String}

theorem headerPath_ne (other : name ≠ headerFile) (id id' : ExecutionId) :
    headerPath root id ≠ filePath root id' name := by
  intro here
  have same : filePath root id headerFile = filePath root id' name := here
  exact other (filePath_inj same).2.symm

/-- No header file is touched. -/
def Aside (root : Path) (fs left : FileSystem) : Prop :=
  ∀ id, left.find? (headerPath root id) = fs.find? (headerPath root id)

/-- Of the header files under a root, at most that of one header was replaced, and by this header. -/
def Rewritten (root : Path) (header : ExecutionHeader) (fs left : FileSystem) : Prop :=
  ∀ id, left.find? (headerPath root id) = fs.find? (headerPath root id) ∨
    id = header.id ∧ ∃ logBytes,
      left.find? (headerPath root id) = some (.file (StoredHeader.encode ⟨header, logBytes⟩))

theorem Aside.rewritten (aside : Aside root fs left) : Rewritten root header fs left :=
  fun id => .inl (aside id)

theorem Aside.then (aside : Aside root fs mid) (rest : Rewritten root header mid left) :
    Rewritten root header fs left := by
  intro id
  rw [← aside id]
  exact rest id

theorem aside_put (other : name ≠ headerFile) (id : ExecutionId) (content : Bytes) :
    Aside root fs (fs.put (filePath root id name) (.file content)) :=
  fun id' => FileSystem.find?_put_of_ne filePath_ne_nil fs _ (headerPath_ne other id' id)

/-- Writing into another file of an execution, whether it succeeds or not. -/
theorem aside_changed (other : name ≠ headerFile) (id : ExecutionId) (content : Bytes)
    (check : Except FileError Unit) :
    Aside root fs (fs.changed (check >>= fun _ =>
      .ok (fs.put (filePath root id name) (.file content)))).2 := by
  rcases fs.changed_put (filePath root id name) content check with same | put
  · rw [same]
    exact fun _ => rfl
  · rw [put]
    exact aside_put other id content

/-- Making the directory of an execution, whether it succeeds or not. -/
theorem aside_createDirectories (id : ExecutionId) :
    Aside root fs (fs.perform (.createDirectories (directory root id))).2 := by
  intro id'
  rw [FileSystem.perform]
  cases created : fs.createDirectories (directory root id) with
  | error e => rfl
  | ok made =>
    apply FileSystem.find?_of_createDirectories created
    intro mem
    have short := length_of_way mem
    simp [headerPath, directory] at short

/-- A change that leaves the header files alone, and then others, unless it fails. -/
theorem Aside.inOrder {op : FileOp} {ops : List FileOp} (aside : Aside root fs (fs.perform op).2)
    (rest : ∀ answer, (fs.perform op).1 = .ok answer →
      Rewritten root header (fs.perform op).2
        (FileProgram.run (.inOrder ops) (fs.perform op).2).2) :
    Rewritten root header fs (FileProgram.run (.inOrder (op :: ops)) fs).2 := by
  rw [FileProgram.inOrder, FileProgram.run]
  rcases performed : fs.perform op with ⟨reply, next⟩
  rw [performed] at aside rest
  cases reply with
  | error e => exact aside.rewritten
  | ok answer => exact aside.then (rest answer rfl)

/-- The rename of a header that stands in the temporary file. -/
theorem rewritten_rename {logBytes : Nat}
    (found : fs.find? (filePath root header.id temporaryFile) =
      some (.file (StoredHeader.encode ⟨header, logBytes⟩))) :
    Rewritten root header fs (FileProgram.run (.inOrder
      [.rename (filePath root header.id temporaryFile) (filePath root header.id headerFile)]) fs).2 := by
  have read : fs.read (filePath root header.id temporaryFile) =
      .ok (StoredHeader.encode ⟨header, logBytes⟩) := by
    rw [FileSystem.read, found]
  rw [FileProgram.inOrder, FileProgram.run, FileSystem.perform, FileSystem.rename, read]
  cases fs.checkWritable (filePath root header.id headerFile) with
  | error e => exact fun id => .inl rfl
  | ok _ =>
    intro id
    have put := FileSystem.find?_put (@filePath_ne_nil root header.id headerFile)
      (fs.removeTree (filePath root header.id temporaryFile))
      (.file (StoredHeader.encode ⟨header, logBytes⟩)) (headerPath root id)
    by_cases here : headerPath root id = filePath root header.id headerFile
    · have same : filePath root id headerFile = filePath root header.id headerFile := here
      refine .inr ⟨(filePath_inj same).1, logBytes, ?_⟩
      rw [if_pos here] at put
      exact put
    · apply Or.inl
      rw [if_neg here, FileSystem.find?_removeTree] at put
      · exact put
      · intro start
        have same := start.eq_of_length (by simp [filePath, headerPath, directory])
        exact headerPath_ne (by decide) id header.id same.symm

/-- The header that is renamed is the one that was written. -/
theorem rewritten_headerChanges (header : ExecutionHeader) (logBytes : Nat) (fs : FileSystem) :
    Rewritten root header fs
      (FileProgram.run (.inOrder (headerChanges root ⟨header, logBytes⟩)) fs).2 := by
  apply Aside.inOrder
  · exact aside_changed (by decide) header.id _ _
  · intro answer performed
    exact rewritten_rename (FileSystem.find?_of_replaced filePath_ne_nil performed)

/-- What is decided by the header found. -/
theorem rewritten_decided {α : Type} {id : ExecutionId}
    {judge : Option StoredHeader → Except StoreError α} {changes : α → List FileOp}
    (each : ∀ a, Rewritten root header fs (FileProgram.run (.inOrder (changes a)) fs).2) :
    Rewritten root header fs (FileProgram.run (decided root id judge changes) fs).2 := by
  rw [decided, FileProgram.run]
  dsimp only [FileSystem.perform]
  cases headerOf (fs.read (headerPath root id)) >>= judge with
  | error e => exact fun id => .inl rfl
  | ok a => exact each a

theorem rewritten_insert (store : FileStore) (header : ExecutionHeader) :
    Rewritten store.root header store.files (ExecutionStore.insert store header).2.files := by
  change Rewritten _ _ _ (FileProgram.run (insertProgram store.root header).run store.files).2
  rw [run_insertProgram]
  apply rewritten_decided
  intro _
  apply (aside_createDirectories header.id).inOrder
  intro _ _
  exact rewritten_headerChanges header 0 _

theorem rewritten_commit (store : FileStore) (c : Commit) :
    Rewritten store.root c.header store.files (ExecutionStore.commit store c).2.files := by
  change Rewritten _ _ _ (FileProgram.run (commitProgram store.root c).run store.files).2
  rw [run_commitProgram]
  apply rewritten_decided
  intro committed
  rw [commitChanges]
  split
  · exact rewritten_headerChanges c.header _ _
  · have log : logFile ≠ headerFile := by decide
    apply Aside.inOrder (aside_changed log c.header.id _ _)
    intro _ _
    apply Aside.inOrder (aside_changed log c.header.id _ _)
    intro _ _
    exact rewritten_headerChanges c.header _ _

/-- Where a header file says it comes from, if it can be read. -/
def originOf (node : Option FileNode) : Option Origin :=
  match node with
  | some (.file content) =>
    (Bytes.decode StoredHeader.decode content).toOption.map (·.header.origin)
  | _ => none

theorem originOf_encode {header : ExecutionHeader} {logBytes : Nat} {origin : Origin}
    (found : originOf (some (.file (StoredHeader.encode ⟨header, logBytes⟩))) = some origin) :
    origin = header.origin := by
  cases decoded : Bytes.decode StoredHeader.decode (StoredHeader.encode ⟨header, logBytes⟩) with
  | error e =>
    simp only [originOf, decoded] at found
    cases found
  | ok read =>
    simp only [originOf, decoded] at found
    cases found
    exact StoredHeader.origin_of_decode decoded

/-- What a reader makes of a header file, and where it says it comes from. -/
theorem originOf_read (fs : FileSystem) (path : Path) {found : Option StoredHeader}
    (reads : headerOf (fs.read path) = .ok found) :
    originOf (fs.find? path) = found.map (·.header.origin) := by
  rw [FileSystem.read] at reads
  cases there : fs.find? path with
  | none =>
    rw [there] at reads
    dsimp only at reads
    unfold FileSystem.absent at reads
    split at reads <;> cases reads
    rfl
  | some node =>
    cases node with
    | directory =>
      rw [there] at reads
      cases reads
    | file content =>
      rw [there] at reads
      simp only [headerOf] at reads
      cases decoded : Bytes.decode StoredHeader.decode content with
      | error e =>
        rw [decoded] at reads
        cases reads
      | ok stored =>
        rw [decoded] at reads
        cases reads
        simp only [originOf, decoded]
        rfl

theorem Rewritten.origin (rewritten : Rewritten root header fs left) {id : ExecutionId}
    {origin : Origin} (found : originOf (left.find? (headerPath root id)) = some origin) :
    originOf (fs.find? (headerPath root id)) = some origin ∨
      id = header.id ∧ origin = header.origin := by
  rcases rewritten id with same | ⟨here, logBytes, new⟩
  · rw [same] at found
    exact .inl found
  · rw [new] at found
    exact .inr ⟨here, originOf_encode found⟩

instance : OriginStore FileStore where
  origin? store id := originOf (store.files.find? (headerPath store.root id))
  origin_of_header := by
    intro store id header loaded
    replace loaded : Except.map _ (FileProgram.run (readHeader store.root id).run store.files).1 =
      _ := loaded
    rw [run_readHeader] at loaded
    cases reads : headerOf (store.files.read (headerPath store.root id)) with
    | error e =>
      rw [reads] at loaded
      cases loaded
    | ok found =>
      rw [reads] at loaded
      rw [originOf_read _ _ reads]
      cases found with
      | none => cases loaded
      | some stored =>
        cases loaded
        rfl
  origin_of_insert := (rewritten_insert _ _).origin
  origin_of_commit := (rewritten_commit _ _).origin
  absent_of_insert := by
    intro store header inserted
    replace inserted : (FileProgram.run (insertProgram store.root header).run store.files).1 =
      _ := inserted
    rw [run_insertProgram, decided, FileProgram.run] at inserted
    dsimp only [FileSystem.perform] at inserted
    cases reads : headerOf (store.files.read (headerPath store.root header.id)) with
    | error e =>
      rw [reads] at inserted
      cases inserted
    | ok found =>
      rw [originOf_read _ _ reads]
      cases found with
      | none => rfl
      | some stored =>
        rw [reads] at inserted
        cases inserted

end FileStore

instance : OriginStore AnyStore where
  origin?
    | .memory store, id => OriginStore.origin? store id
    | .files store, id => OriginStore.origin? store id
  origin_of_header {store _ _} loaded := by
    cases store with
    | memory store => exact @OriginStore.origin_of_header _ _ _ store _ _ loaded
    | files store => exact @OriginStore.origin_of_header _ _ _ store _ _ loaded
  origin_of_insert {store _ _ _} found := by
    cases store with
    | memory store => exact @OriginStore.origin_of_insert _ _ _ store _ _ _ found
    | files store => exact @OriginStore.origin_of_insert _ _ _ store _ _ _ found
  origin_of_commit {store _ _ _} found := by
    cases store with
    | memory store => exact @OriginStore.origin_of_commit _ _ _ store _ _ _ found
    | files store => exact @OriginStore.origin_of_commit _ _ _ store _ _ _ found
  absent_of_insert {store _} inserted := by
    cases store with
    | memory store => exact @OriginStore.absent_of_insert _ _ _ store _ inserted
    | files store => exact @OriginStore.absent_of_insert _ _ _ store _ inserted

section

variable {σ : Type} [ExecutionStore σ] [OriginStore σ]

/-- Every header that can be read under an id is one of this id. -/
def Addressed (store : σ) : Prop :=
  ∀ id origin, OriginStore.origin? store id = some origin → origin.id = id

variable {store : σ}

theorem Addressed.insert (addressed : Addressed store) (header : ExecutionHeader) :
    Addressed (ExecutionStore.insert store header).2 := by
  intro id origin found
  rcases OriginStore.origin_of_insert found with before | ⟨rfl, rfl⟩
  · exact addressed id origin before
  · rfl

theorem Addressed.commit (addressed : Addressed store) (c : Commit) :
    Addressed (ExecutionStore.commit store c).2 := by
  intro id origin found
  rcases OriginStore.origin_of_commit found with before | ⟨rfl, rfl⟩
  · exact addressed id origin before
  · rfl

theorem Addressed.becomes {later : σ} (addressed : Addressed store) (becomes : Becomes store later) :
    Addressed later := by
  induction becomes with
  | refl => exact addressed
  | insert _ header ih => exact ih.insert header
  | commit _ c ih => exact ih.commit c

end

/-- A lawful store never has a record under another id. -/
theorem addressed_of_lawful {σ : Type} [ExecutionStore σ] [LawfulStore σ] (store : σ) :
    Addressed store := by
  intro id origin found
  obtain ⟨execution, stored, rfl⟩ := Option.map_eq_some_iff.mp found
  exact LawfulStore.stored_id stored

end WorkflowEngine
