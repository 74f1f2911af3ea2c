import WorkflowEngine.Proofs.Store.Writing
import WorkflowEngine.Store.Memory

/-!
# How executions lie in files

Under the root every execution has a directory of its own, which holds files only. Every change a writer
makes keeps it so and touches the files it names and no others, so that executions do not disturb each
other.
-/
namespace WorkflowEngine

namespace FileStore

/-- A file of an execution. -/
def filePath (root : Path) (id : ExecutionId) (name : String) : Path := directory root id ++ [name]

variable {root : Path} {id other : ExecutionId} {name : String} {fs left : FileSystem}

theorem filePath_ne_nil : filePath root id name ≠ [] := by simp [filePath]

theorem dropLast_filePath : (filePath root id name).dropLast = directory root id := by
  simp [filePath]

theorem directory_inj (same : directory root id = directory root other) : id = other := by
  have same : id.toText = other.toText := by simpa [directory] using same
  exact Uuid.toText_inj same

theorem filePath_inj {another : String} (same : filePath root id name = filePath root other another) :
    id = other ∧ name = another := by
  obtain ⟨directories, names⟩ := List.append_inj' same rfl
  exact ⟨directory_inj directories, by simpa using names⟩

theorem filePath_ne_directory : filePath root id name ≠ directory root other := by
  intro same
  have lengths := congrArg List.length same
  simp [filePath, directory] at lengths

theorem length_of_way {above : Path} (mem : above ∈ FileSystem.way root) : above.length ≤ root.length := by
  obtain ⟨count, -, rfl⟩ := List.mem_map.mp mem
  rw [List.length_take]
  exact Nat.min_le_right _ _

theorem directory_ne_way {above : Path} (mem : above ∈ FileSystem.way root) :
    above ≠ directory root id := by
  rintro rfl
  have short := length_of_way mem
  simp [directory] at short

theorem filePath_ne_way {above : Path} (mem : above ∈ FileSystem.way root) :
    above ≠ filePath root id name := by
  rintro rfl
  have short := length_of_way mem
  simp [filePath, directory] at short

/-- A store that is opened where its directory is finds what is there. -/
theorem openAt_of_reaches {fs : FileSystem} (reaches : fs.Reaches root) :
    openAt root fs = .ok ⟨root, fs⟩ := by
  rw [openAt, FileSystem.createDirectories_of_reaches reaches]

/-- The root is there; under it stand the directories of executions, and in those stand files. -/
structure Laid (root : Path) (fs : FileSystem) : Prop where
  reaches : fs.Reaches root
  directory : ∀ id, fs.find? (directory root id) = none ∨ fs.find? (directory root id) = some .directory
  free : ∀ id name, fs.find? (filePath root id name) ≠ some .directory
  inside : ∀ id name, fs.find? (filePath root id name) ≠ none →
    fs.find? (FileStore.directory root id) = some .directory

/-- Files of one execution were changed, and nothing else that executions have. -/
structure Touches (root : Path) (id : ExecutionId) (names : List String) (fs left : FileSystem) :
    Prop where
  laid : Laid root left
  same : ∀ other name, (other = id → name ∉ names) →
    left.find? (filePath root other name) = fs.find? (filePath root other name)
  kept : fs.find? (directory root id) = some .directory →
    left.find? (directory root id) = some .directory

namespace Touches

variable {names : List String} {mid : FileSystem}

theorem refl (laid : Laid root fs) : Touches root id names fs fs := ⟨laid, fun _ _ _ => rfl, fun there => there⟩

theorem trans (first : Touches root id names fs mid) (second : Touches root id names mid left) :
    Touches root id names fs left where
  laid := second.laid
  same other name outside := by rw [second.same other name outside, first.same other name outside]
  kept there := second.kept (first.kept there)

theorem mono {more : List String} (touches : Touches root id names fs left) (subset : names ⊆ more) :
    Touches root id more fs left where
  laid := touches.laid
  same other name outside := touches.same other name fun here mem => outside here (subset mem)
  kept := touches.kept

end Touches

/-- The directory of an execution is there. -/
def Made (root : Path) (id : ExecutionId) (fs : FileSystem) : Prop :=
  fs.find? (directory root id) = some .directory

theorem Laid.ready (laid : Laid root fs) (made : Made root id fs) (name : String) :
    fs.Ready (filePath root id name) where
  below := filePath_ne_nil
  above := by rw [dropLast_filePath]; exact made
  free := laid.free id name

/-- Changes to files of an execution whose directory is there keep the layout. -/
theorem Laid.change (laid : Laid root fs) (made : Made root id fs)
    (ways : ∀ above ∈ FileSystem.way root, left.find? above = fs.find? above)
    (directories : ∀ other, left.find? (FileStore.directory root other) =
      fs.find? (FileStore.directory root other))
    (files : ∀ other name, left.find? (filePath root other name) = fs.find? (filePath root other name) ∨
      other = id ∧ left.find? (filePath root other name) ≠ some .directory) : Laid root left where
  reaches above mem := by rw [ways above mem, laid.reaches above mem]
  directory other := by
    rw [directories other]
    exact laid.directory other
  free other name := by
    rcases files other name with same | ⟨-, free⟩
    · rw [same]
      exact laid.free other name
    · exact free
  inside other name there := by
    rw [directories other]
    rcases files other name with same | ⟨rfl, -⟩
    · exact laid.inside other name (same ▸ there)
    · exact made

/-- A file is written. -/
theorem Laid.put (laid : Laid root fs) (made : Made root id fs) (name : String) (content : Bytes) :
    Touches root id [name] fs (fs.put (filePath root id name) (.file content)) := by
  have other {path : Path} (distinct : path ≠ filePath root id name) :
      (fs.put (filePath root id name) (.file content)).find? path = fs.find? path :=
    FileSystem.find?_put_of_ne filePath_ne_nil fs (.file content) distinct
  have directories (another : ExecutionId) := other (@filePath_ne_directory root id another name).symm
  refine ⟨laid.change made (fun above mem => other (filePath_ne_way mem)) directories ?_, ?_, ?_⟩
  · intro another file
    by_cases here : filePath root another file = filePath root id name
    · obtain ⟨rfl, rfl⟩ := filePath_inj here
      refine .inr ⟨rfl, ?_⟩
      rw [FileSystem.find?_put filePath_ne_nil, if_pos rfl]
      simp
    · exact .inl (other here)
  · intro another file outside
    apply other
    intro here
    obtain ⟨rfl, rfl⟩ := filePath_inj here
    exact outside rfl (by simp)
  · intro there
    rw [directories id]
    exact there

/-- A file is moved over another of the same execution. -/
theorem Laid.rename (laid : Laid root fs) (made : Made root id fs) (source target : String)
    (content : Bytes) :
    Touches root id [source, target] fs
      ((fs.removeTree (filePath root id source)).put (filePath root id target) (.file content)) := by
  have other {path : Path} (outside : ¬filePath root id source <+: path)
      (distinct : path ≠ filePath root id target) :
      ((fs.removeTree (filePath root id source)).put (filePath root id target)
        (.file content)).find? path = fs.find? path := by
    rw [FileSystem.find?_put_of_ne filePath_ne_nil _ _ distinct, FileSystem.find?_removeTree outside]
  have long {path : Path} (short : path.length ≤ root.length + 1) : ¬filePath root id source <+: path := by
    intro start
    have lengths := start.length_le
    simp only [filePath, FileStore.directory, List.length_append, List.length_singleton] at lengths
    omega
  have directories (another : ExecutionId) := @other (FileStore.directory root another)
    (long (by simp [FileStore.directory])) filePath_ne_directory.symm
  have files {another : ExecutionId} {file : String}
      (apart : filePath root another file ≠ filePath root id source)
      (distinct : filePath root another file ≠ filePath root id target) :=
    other (fun start => apart (start.eq_of_length (by simp [filePath, FileStore.directory])).symm)
      distinct
  refine ⟨laid.change made ?_ directories ?_, ?_, ?_⟩
  · intro above mem
    exact other (long ((length_of_way mem).trans (Nat.le_succ _))) (filePath_ne_way mem)
  · intro another file
    by_cases there : filePath root another file = filePath root id target
    · obtain ⟨rfl, rfl⟩ := filePath_inj there
      refine .inr ⟨rfl, ?_⟩
      rw [FileSystem.find?_put filePath_ne_nil, if_pos rfl]
      simp
    by_cases here : filePath root another file = filePath root id source
    · obtain ⟨rfl, rfl⟩ := filePath_inj here
      refine .inr ⟨rfl, ?_⟩
      rw [FileSystem.find?_put_of_ne filePath_ne_nil _ _ there,
        FileSystem.find?_removeTree_self filePath_ne_nil]
      simp
    · exact .inl (files here there)
  · intro another file outside
    apply files
    · intro here
      obtain ⟨rfl, rfl⟩ := filePath_inj here
      exact outside rfl (by simp)
    · intro there
      obtain ⟨rfl, rfl⟩ := filePath_inj there
      exact outside rfl (by simp)
  · intro there
    rw [directories id]
    exact there

/-- The directory of an execution is made, if it is not there. -/
theorem Laid.createDirectories (laid : Laid root fs) (id : ExecutionId) :
    ∃ made, fs.createDirectories (FileStore.directory root id) = .ok made ∧ Made root id made ∧
      Touches root id [] fs made := by
  have step : fs.createDirectories (FileStore.directory root id) =
      FileSystem.makeDirectory (FileStore.directory root id) fs (FileStore.directory root id) :=
    FileSystem.createDirectories_append laid.reaches id.toText
  have below : FileStore.directory root id ≠ [] := by simp [FileStore.directory]
  rcases laid.directory id with absent | there
  · have made : fs.createDirectories (FileStore.directory root id) =
        .ok (fs.put (FileStore.directory root id) .directory) := by
      rw [step, FileSystem.makeDirectory, absent]
    have here : Made root id (fs.put (FileStore.directory root id) .directory) := by
      rw [Made, FileSystem.find?_put below, if_pos rfl]
    have other {path : Path} (distinct : path ≠ FileStore.directory root id) :=
      FileSystem.find?_put_of_ne below fs .directory distinct
    refine ⟨_, made, here, ⟨?_, ?_, ?_, ?_⟩, ?_, fun _ => here⟩
    · intro above mem
      rw [other (directory_ne_way mem)]
      exact laid.reaches above mem
    · intro another
      rw [FileSystem.find?_put below]
      split
      · exact .inr rfl
      · exact laid.directory another
    · intro another file
      rw [other filePath_ne_directory]
      exact laid.free another file
    · intro another file found
      rw [other filePath_ne_directory] at found
      rw [FileSystem.find?_put below]
      split
      · rfl
      · exact laid.inside another file found
    · intro another file _
      exact other filePath_ne_directory
  · refine ⟨fs, ?_, there, .refl laid⟩
    rw [step, FileSystem.makeDirectory, there]

theorem Laid.perform_createDirectories (laid : Laid root fs) (id : ExecutionId) :
    ∃ made, fs.perform (.createDirectories (FileStore.directory root id)) = (.ok (), made) ∧
      Made root id made ∧ Touches root id [] fs made := by
  obtain ⟨made, created, there, touches⟩ := laid.createDirectories id
  refine ⟨made, ?_, there, touches⟩
  rw [FileSystem.perform, created]
  rfl

/-- On the way to the directory of an execution, only that directory may be missing. -/
theorem Laid.torn_createDirectories (laid : Laid root fs)
    (torn : FileOp.Torn fs (.createDirectories (FileStore.directory root id)) left) :
    Touches root id [] fs left := by
  obtain ⟨made, created, there, touches⟩ := laid.createDirectories id
  cases torn with
  | nothing => exact .refl laid
  | whole =>
    rw [FileSystem.perform, created]
    exact touches
  | directories count part =>
    rcases Nat.lt_or_ge root.length count with all | some
    · rw [List.take_of_length_le (by simp [FileStore.directory]; omega), created] at part
      cases part
      exact touches
    · have reaches : fs.Reaches (root.take count) := by
        intro above mem
        apply laid.reaches
        obtain ⟨shorter, low, rfl⟩ := List.mem_map.mp mem
        rw [List.length_take, List.mem_range] at low
        rw [List.take_take]
        exact List.mem_map_of_mem (List.mem_range.mpr (by omega))
      rw [FileStore.directory, List.take_append_of_le_length some,
        FileSystem.createDirectories_of_reaches reaches] at part
      cases part
      exact .refl laid

end FileStore

end WorkflowEngine
