import WorkflowEngine.Proofs.Store.Layout

/-!
# Changes are made or not

Wherever a writer stops, the files of its execution hold the record from before or the record it was to
write, and at its end they hold the latter. The rename of the header is what decides: until then only
bytes behind the committed length of the log and the temporary header have changed.
-/
namespace WorkflowEngine

namespace FileStore

variable {root : Path} {id : ExecutionId} {fs left : FileSystem}

/-- The files of an execution hold a record, or that there is none. What stands in the log behind its
committed length is not part of the record. -/
def Holds (root : Path) (id : ExecutionId) (fs : FileSystem) : Option StoredExecution → Prop
  | none => fs.find? (filePath root id headerFile) = none
  | some e =>
    fs.find? (filePath root id headerFile) =
        some (.file (StoredHeader.encode ⟨e.header, (logOf e.log).length⟩)) ∧
      logOf e.log <+: fs.contentOf (filePath root id logFile)

theorem Holds.made (laid : Laid root fs) {e : StoredExecution} (holds : Holds root id fs (some e)) :
    Made root id fs :=
  laid.inside id headerFile (by rw [holds.1]; simp)

/-- A record depends on the header and the log only. -/
theorem Holds.congr {record : Option StoredExecution} (holds : Holds root id fs record)
    (header : left.find? (filePath root id headerFile) = fs.find? (filePath root id headerFile))
    (log : left.find? (filePath root id logFile) = fs.find? (filePath root id logFile)) :
    Holds root id left record := by
  cases record with
  | none => exact header.trans holds
  | some e => exact ⟨header.trans holds.1, by rw [FileSystem.contentOf_eq log]; exact holds.2⟩

/-- Changes to one execution leave the records of others. -/
theorem Holds.aside {other : ExecutionId} {names : List String} {record : Option StoredExecution}
    (holds : Holds root other fs record) (touches : Touches root id names fs left) (apart : other ≠ id) :
    Holds root other left record :=
  holds.congr (touches.same other headerFile fun same => absurd same apart)
    (touches.same other logFile fun same => absurd same apart)

/-- The files that a change of the header touches. -/
def headerNames : List String := [temporaryFile, headerFile]

/-- Changes that are made or not: nobody is refused. -/
abbrev Changes (before : FileSystem → Prop) (after : Except StoreError Unit → FileSystem → Prop)
    (ops : List FileOp) (fs : FileSystem) : Prop :=
  (FileProgram.inOrder ops).Turns before (fun _ => False) after fs

theorem Changes.cons {before : FileSystem → Prop} {after : Except StoreError Unit → FileSystem → Prop}
    {op : FileOp} {ops : List FileOp} {answer : op.Answer} {next : FileSystem}
    (other : op.isRename = false) (performed : fs.perform op = (.ok answer, next))
    (torn : ∀ left, op.Torn fs left → before left) (rest : Changes before after ops next) :
    Changes before after (op :: ops) fs := by
  unfold Changes FileProgram.inOrder FileProgram.Turns
  rw [if_neg (by simp [other]), performed]
  exact ⟨torn, rest⟩

theorem Changes.rename {before : FileSystem → Prop} {after : Except StoreError Unit → FileSystem → Prop}
    {source target : Path} {next : FileSystem}
    (performed : fs.perform (.rename source target) = (.ok (), next)) (start : before fs)
    (landed : after (.ok ()) next) : Changes before after [.rename source target] fs := by
  have renames : (FileOp.rename source target).isRename = true := rfl
  unfold Changes FileProgram.inOrder FileProgram.Turns
  rw [if_pos renames, performed]
  exact ⟨start, .ok (), rfl, landed⟩

/-- Wherever the changes stop, they have been made or not. -/
theorem Changes.keeps {before : FileSystem → Prop} {after : Except StoreError Unit → FileSystem → Prop}
    {ops : List FileOp} (changes : Changes before after ops fs) :
    (FileProgram.inOrder ops).Keeps (fun left => before left ∨ ∃ a, after a left) after fs := by
  apply (FileProgram.Turns.keeps changes).weaken (fun _ kept => kept)
  rintro a left (⟨-, refused⟩ | landed)
  · exact refused.elim
  · exact landed

/-- Until the header is renamed, header and log stand as they stood; then the new header stands. -/
theorem changes_header (laid : Laid root fs) {stored : StoredHeader}
    (made : Made root stored.header.id fs) :
    Changes
      (fun left => Touches root stored.header.id headerNames fs left ∧
        left.find? (filePath root stored.header.id headerFile) =
          fs.find? (filePath root stored.header.id headerFile))
      (fun result left => result = .ok () ∧ Touches root stored.header.id headerNames fs left ∧
        left.find? (filePath root stored.header.id headerFile) = some (.file stored.encode))
      (headerChanges root stored) fs := by
  have wrote (part : Bytes) : Touches root stored.header.id headerNames fs
      (fs.put (filePath root stored.header.id temporaryFile) (.file part)) :=
    (laid.put made temporaryFile part).mono (by simp [headerNames])
  have unchanged (part : Bytes) :
      (fs.put (filePath root stored.header.id temporaryFile) (.file part)).find?
        (filePath root stored.header.id headerFile) =
          fs.find? (filePath root stored.header.id headerFile) :=
    (laid.put made temporaryFile part).same _ _ fun _ => by decide
  have temporary := laid.ready made temporaryFile
  apply Changes.cons rfl (temporary.perform_replace stored.encode)
  · intro left torn
    rcases torn.of_replace temporary with rfl | ⟨part, rfl⟩
    · exact ⟨.refl laid, rfl⟩
    · exact ⟨wrote part, unchanged part⟩
  -- the whole new header stands in the temporary file
  have before := wrote stored.encode
  have stands := unchanged stored.encode
  have found : (fs.put (filePath root stored.header.id temporaryFile) (.file stored.encode)).find?
      (filePath root stored.header.id temporaryFile) = some (.file stored.encode) := by
    rw [FileSystem.find?_put filePath_ne_nil, if_pos rfl]
  generalize fs.put (filePath root stored.header.id temporaryFile) (.file stored.encode) = mid
    at before stands found
  have header := before.laid.ready (before.kept made) headerFile
  have renamed := before.trans (before.laid.rename (before.kept made) temporaryFile headerFile
    stored.encode)
  apply Changes.rename (header.perform_rename found) ⟨before, stands⟩
  refine ⟨rfl, renamed, ?_⟩
  rw [FileSystem.find?_put filePath_ne_nil, if_pos rfl]

/-- An insertion adds its record by the rename of the header. -/
theorem changes_insert (laid : Laid root fs) {header : ExecutionHeader}
    (absent : Holds root header.id fs none) :
    Changes
      (fun left => Touches root header.id headerNames fs left ∧ Holds root header.id left none)
      (fun result left => result = .ok () ∧ Touches root header.id headerNames fs left ∧
        Holds root header.id left (some ⟨header, []⟩))
      (insertChanges root header) fs := by
  obtain ⟨mid, performed, made, touches⟩ := laid.perform_createDirectories header.id
  apply Changes.cons rfl performed
  · intro left torn
    have touches := laid.torn_createDirectories torn
    refine ⟨touches.mono (List.nil_subset _), ?_⟩
    rw [Holds, touches.same header.id headerFile (by simp)]
    exact absent
  · have before : Touches root header.id headerNames fs mid := touches.mono (List.nil_subset _)
    have still : mid.find? (filePath root header.id headerFile) = none := by
      rw [touches.same header.id headerFile (by simp)]
      exact absent
    apply (@changes_header root mid before.laid ⟨header, 0⟩ made).weaken
    · rintro left ⟨after, stands⟩
      exact ⟨before.trans after, stands.trans still⟩
    · exact fun _ refused => refused
    · rintro result left ⟨ok, after, stands⟩
      exact ⟨ok, before.trans after, stands, List.nil_prefix⟩

/-- Bringing a log to its committed length cuts off what never was committed. -/
theorem resized_of_prefix {log content : Bytes} (start : log <+: content) :
    FileSystem.resized content log.length = log := by
  obtain ⟨more, rfl⟩ := start
  simp [FileSystem.resized]

theorem logOf_append (log appended : List Checkpoint) :
    logOf (log ++ appended) = logOf log ++ logOf appended := List.flatMap_append

/-- The header file is as it was, and the log still starts with what was committed. -/
structure Spared (root : Path) (id : ExecutionId) (log : List Checkpoint) (fs left : FileSystem) :
    Prop where
  header : left.find? (filePath root id headerFile) = fs.find? (filePath root id headerFile)
  log : logOf log <+: left.contentOf (filePath root id logFile)

/-- A record that is spared is still held. -/
theorem Spared.holds {e : StoredExecution} (spared : Spared root id e.log fs left)
    (holds : Holds root id fs (some e)) : Holds root id left (some e) :=
  ⟨spared.header.trans holds.1, spared.log⟩

/-- Writing into the log behind the committed length spares the record. -/
theorem spared_put_log (laid : Laid root fs) (made : Made root id fs) {log : List Checkpoint}
    {content : Bytes} (start : logOf log <+: content) :
    Touches root id (logFile :: headerNames) fs (fs.put (filePath root id logFile) (.file content)) ∧
      Spared root id log fs (fs.put (filePath root id logFile) (.file content)) := by
  have touches := laid.put made logFile content
  refine ⟨touches.mono (by simp), touches.same id headerFile fun _ => by decide, ?_⟩
  rw [FileSystem.contentOf_put filePath_ne_nil]
  exact start

/-- With the whole of the new log in its file, the new header makes the commit. -/
theorem changes_header_of_commit {c : Commit} {log : List Checkpoint} {mid : FileSystem}
    (made : Made root c.header.id mid)
    (before : Touches root c.header.id (logFile :: headerNames) fs mid)
    (header : mid.find? (filePath root c.header.id headerFile) =
      fs.find? (filePath root c.header.id headerFile))
    (whole : logOf (log ++ c.appended) <+: mid.contentOf (filePath root c.header.id logFile)) :
    Changes
      (fun left => Touches root c.header.id (logFile :: headerNames) fs left ∧
        Spared root c.header.id log fs left)
      (fun result left => result = .ok () ∧
        Touches root c.header.id (logFile :: headerNames) fs left ∧
        Holds root c.header.id left (some ⟨c.header, log ++ c.appended⟩))
      (headerChanges root ⟨c.header, (logOf (log ++ c.appended)).length⟩) mid := by
  have unlogged {left : FileSystem} (after : Touches root c.header.id headerNames mid left) :
      left.contentOf (filePath root c.header.id logFile) =
        mid.contentOf (filePath root c.header.id logFile) :=
    FileSystem.contentOf_eq (after.same _ _ fun _ => by decide)
  have touches {left : FileSystem} (after : Touches root c.header.id headerNames mid left) :
      Touches root c.header.id (logFile :: headerNames) fs left :=
    before.trans (after.mono (List.subset_cons_self _ _))
  have part : logOf log <+: logOf (log ++ c.appended) := by
    rw [logOf_append]
    exact List.prefix_append _ _
  apply (@changes_header root mid before.laid ⟨c.header, _⟩ made).weaken
  · rintro left ⟨after, stands⟩
    refine ⟨touches after, stands.trans header, ?_⟩
    rw [unlogged after]
    exact part.trans whole
  · exact fun _ refused => refused
  · rintro result left ⟨ok, after, stands⟩
    refine ⟨ok, touches after, stands, ?_⟩
    rw [unlogged after]
    exact whole

/-- A commit replaces its record by the rename of the header. It depends on the log only as far as it was
committed, and on the header not at all. -/
theorem changes_commit (laid : Laid root fs) {c : Commit} (made : Made root c.header.id fs)
    {log : List Checkpoint} (logged : logOf log <+: fs.contentOf (filePath root c.header.id logFile)) :
    Changes
      (fun left => Touches root c.header.id (logFile :: headerNames) fs left ∧
        Spared root c.header.id log fs left)
      (fun result left => result = .ok () ∧
        Touches root c.header.id (logFile :: headerNames) fs left ∧
        Holds root c.header.id left (some ⟨c.header, log ++ c.appended⟩))
      (commitChanges root c (logOf log).length) fs := by
  have length : (logOf log).length + (logOf c.appended).length =
      (logOf (log ++ c.appended)).length := by rw [logOf_append, List.length_append]
  rw [commitChanges, length]
  by_cases none : c.appended = []
  · rw [if_pos (by simp [none]), List.nil_append]
    apply changes_header_of_commit made (.refl laid) rfl
    rw [none, List.append_nil]
    exact logged
  rw [if_neg (by simpa using none), List.cons_append, List.cons_append, List.nil_append]
  have ready := laid.ready made logFile
  have resized := resized_of_prefix logged
  have cut := spared_put_log laid made (show logOf log <+: logOf log from List.prefix_rfl)
  have performed := ready.perform_resize (logOf log).length
  rw [resized] at performed
  apply Changes.cons rfl performed
  · intro left torn
    rcases torn.of_resize ready with rfl | rfl | rfl
    · exact ⟨.refl laid, rfl, logged⟩
    · exact spared_put_log laid made logged
    · rw [resized]
      exact cut
  -- the log is what was committed, and nothing behind it
  obtain ⟨before, spared⟩ := cut
  have content := FileSystem.contentOf_put (@filePath_ne_nil root c.header.id logFile) fs (logOf log)
  generalize fs.put (filePath root c.header.id logFile) (.file (logOf log)) = mid
    at before spared content
  have there := before.kept made
  have ready := before.laid.ready there logFile
  have written (rest : Bytes) :
      Touches root c.header.id (logFile :: headerNames) fs
          (mid.put (filePath root c.header.id logFile) (.file (logOf log ++ rest))) ∧
        Spared root c.header.id log fs
          (mid.put (filePath root c.header.id logFile) (.file (logOf log ++ rest))) := by
    obtain ⟨after, still⟩ := spared_put_log before.laid there (List.prefix_append (logOf log) rest)
    exact ⟨before.trans after, still.header.trans spared.header, still.log⟩
  have whole : FileSystem.resized (logOf log) (logOf log).length = logOf log :=
    resized_of_prefix List.prefix_rfl
  have performed := ready.perform_writeAt (logOf log).length (logOf c.appended)
  have behind : (logOf log).drop ((logOf log).length + (logOf c.appended).length) = [] :=
    List.drop_of_length_le (Nat.le_add_right _ _)
  rw [content, whole, behind, List.append_nil] at performed
  apply Changes.cons rfl performed
  · intro left torn
    rcases torn.of_writeAt ready with rfl | ⟨rest, rfl⟩
    · exact ⟨before, spared⟩
    · rw [content, whole]
      exact written rest
  · obtain ⟨after, still⟩ := written (logOf c.appended)
    apply changes_header_of_commit (after.kept made) after still.header
    simp only [FileSystem.contentOf_put filePath_ne_nil, logOf_append, List.prefix_rfl]

end FileStore

end WorkflowEngine
