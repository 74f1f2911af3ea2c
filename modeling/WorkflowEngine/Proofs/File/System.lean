import Mathlib.Data.List.Basic
import WorkflowEngine.File.System

/-!
# What operations leave where

A file system is told by what stands at each path. Each operation on a file whose directory is there
succeeds and changes nothing but the paths it names; a rename also takes away what stood at its source.
-/
namespace WorkflowEngine

namespace FileSystem

variable {fs : FileSystem} {path : Path}

theorem find?_nil (fs : FileSystem) : fs.find? [] = some .directory := rfl

theorem find?_eq {path : Path} (below : path ≠ []) (fs : FileSystem) :
    fs.find? path = (fs.nodes.find? (·.1 == path)).map (·.2) := by
  cases path with
  | nil => exact absurd rfl below
  | cons name path => rfl

theorem find?_set (path other : Path) (node : FileNode) (nodes : List (Path × FileNode)) :
    ((set path node nodes).find? (·.1 == other)).map (·.2) =
      if other = path then some node else (nodes.find? (·.1 == other)).map (·.2) := by
  induction nodes with
  | nil =>
    by_cases same : other = path
    · simp [set, same]
    · simp [set, same, Ne.symm same]
  | cons entry nodes ih =>
    obtain ⟨p, n⟩ := entry
    rw [set]
    by_cases here : p = path
    · subst here
      by_cases same : p = other
      · simp [same]
      · simp [same, Ne.symm same]
    · rw [if_neg here]
      by_cases there : p = other
      · subst there
        simp [here]
      · simp [there, ih]

theorem find?_put {path : Path} (below : path ≠ []) (fs : FileSystem) (node : FileNode)
    (other : Path) :
    (fs.put path node).find? other = if other = path then some node else fs.find? other := by
  by_cases root : other = []
  · rw [if_neg (by rintro rfl; exact below root), root]
    rfl
  · rw [find?_eq root, find?_eq root, put, find?_set]

theorem find?_put_of_ne {path other : Path} (below : path ≠ []) (fs : FileSystem) (node : FileNode)
    (distinct : other ≠ path) : (fs.put path node).find? other = fs.find? other := by
  rw [find?_put below, if_neg distinct]

theorem find?_removeTree {other : Path} (outside : ¬path <+: other) (fs : FileSystem) :
    (fs.removeTree path).find? other = fs.find? other := by
  by_cases root : other = []
  · rw [root]
    rfl
  · have apart : path.isPrefixOf other = false := by
      rw [← Bool.not_eq_true, List.isPrefixOf_iff_prefix]
      exact outside
    have same : (fun entry : Path × FileNode =>
        decide ((!isWithin path entry.1) = true ∧ (entry.1 == other) = true)) =
          fun entry => entry.1 == other := by
      funext entry
      by_cases here : entry.1 = other
      · simp [here, isWithin, apart]
      · simp [here]
    rw [find?_eq root, find?_eq root, removeTree, List.find?_filter, same]

theorem find?_removeTree_self {path : Path} (below : path ≠ []) (fs : FileSystem) :
    (fs.removeTree path).find? path = none := by
  rw [find?_eq below, removeTree, Option.map_eq_none_iff, List.find?_eq_none]
  rintro ⟨other, node⟩ mem same
  have same : other = path := by simpa using same
  subst same
  have within : isWithin other other = true := List.isPrefixOf_iff_prefix.mpr List.prefix_rfl
  have away := (List.mem_filter.mp mem).2
  simp [within] at away

/-- A file can be written: its directory is there, and no directory stands in its place. -/
structure Ready (fs : FileSystem) (path : Path) : Prop where
  below : path ≠ []
  above : fs.find? path.dropLast = some .directory
  free : fs.find? path ≠ some .directory

theorem Ready.checkWritable (ready : fs.Ready path) : fs.checkWritable path = .ok () := by
  unfold FileSystem.checkWritable
  split
  case h_1 directory => exact absurd directory ready.free
  case h_2 => rfl
  case h_3 =>
    rw [if_pos]
    simp [isDirectory, ready.above]

theorem Ready.replace (ready : fs.Ready path) (content : Bytes) :
    fs.replace path content = .ok (fs.put path (.file content)) := by
  rw [FileSystem.replace, ready.checkWritable]
  rfl

theorem Ready.resize (ready : fs.Ready path) (length : Nat) :
    fs.resize path length = .ok (fs.put path (.file (resized (fs.contentOf path) length))) := by
  rw [FileSystem.resize, ready.checkWritable]
  rfl

theorem Ready.writeAt (ready : fs.Ready path) (offset : Nat) (bytes : Bytes) :
    fs.writeAt path offset bytes = .ok (fs.put path (.file (resized (fs.contentOf path) offset ++
      bytes ++ (fs.contentOf path).drop (offset + bytes.length)))) := by
  rw [FileSystem.writeAt, ready.checkWritable]
  rfl

theorem Ready.rename {source : Path} {content : Bytes} (ready : fs.Ready path)
    (found : fs.find? source = some (.file content)) :
    fs.rename source path = .ok ((fs.removeTree source).put path (.file content)) := by
  rw [FileSystem.rename, read, found, ready.checkWritable]
  rfl

theorem contentOf_put (below : path ≠ []) (fs : FileSystem) (content : Bytes) :
    (fs.put path (.file content)).contentOf path = content := by
  rw [contentOf, find?_put below, if_pos rfl]

theorem contentOf_eq {other : FileSystem} (same : fs.find? path = other.find? path) :
    fs.contentOf path = other.contentOf path := by
  rw [contentOf, contentOf, same]

section Directories

theorem way_append (path : Path) (name : String) :
    way (path ++ [name]) = way path ++ [path ++ [name]] := by
  have front : (List.range (path.length + 1)).map (path ++ [name]).take =
      (List.range (path.length + 1)).map path.take := by
    apply List.map_congr_left
    intro count mem
    have short : count ≤ path.length := by
      rw [List.mem_range] at mem
      omega
    rw [List.take_append_of_le_length short]
  have last : (path ++ [name]).take (path.length + 1) = path ++ [name] :=
    List.take_of_length_le (by simp)
  rw [way, List.length_append, List.length_singleton, List.range_succ, List.map_append, front, way,
    List.map_singleton, last]

/-- Make one directory on the way to a path. -/
def makeDirectory (path : Path) (fs : FileSystem) (above : Path) : Except FileError FileSystem :=
  match fs.find? above with
  | some .directory => .ok fs
  | some (.file _) => .error (if above = path then .alreadyExists else .notDirectory)
  | none => .ok (fs.put above .directory)

theorem createDirectories_eq (fs : FileSystem) (path : Path) :
    fs.createDirectories path = (way path).foldlM (makeDirectory path) fs := rfl

/-- Every directory on the way to a path is there, and so is the path. -/
def Reaches (fs : FileSystem) (path : Path) : Prop :=
  ∀ above ∈ way path, fs.find? above = some .directory

theorem foldlM_of_directories {target : Path} {paths : List Path}
    (there : ∀ above ∈ paths, fs.find? above = some .directory) :
    paths.foldlM (makeDirectory target) fs = .ok fs := by
  induction paths with
  | nil => rfl
  | cons above paths ih =>
    rw [List.forall_mem_cons] at there
    rw [List.foldlM_cons, makeDirectory, there.1]
    exact ih there.2

theorem createDirectories_of_reaches (reaches : fs.Reaches path) :
    fs.createDirectories path = .ok fs := by
  rw [createDirectories_eq, foldlM_of_directories reaches]

theorem makeDirectory_ok {target above : Path} {made : FileSystem}
    (step : makeDirectory target fs above = .ok made) :
    made.find? above = some .directory ∧
      ∀ other, fs.find? other = some .directory → made.find? other = some .directory := by
  unfold makeDirectory at step
  split at step
  case h_1 there =>
    cases step
    exact ⟨there, fun _ found => found⟩
  case h_2 => cases step
  case h_3 absent =>
    cases step
    have below : above ≠ [] := by
      rintro rfl
      cases absent
    refine ⟨by rw [find?_put below, if_pos rfl], fun other found => ?_⟩
    rw [find?_put below]
    split
    · rfl
    · exact found

theorem foldlM_makeDirectory_ok {target : Path} {paths : List Path} {made : FileSystem}
    (run : paths.foldlM (makeDirectory target) fs = .ok made) :
    (∀ above ∈ paths, made.find? above = some .directory) ∧
      ∀ other, fs.find? other = some .directory → made.find? other = some .directory := by
  induction paths generalizing fs with
  | nil =>
    cases run
    exact ⟨by simp, fun _ found => found⟩
  | cons above paths ih =>
    rw [List.foldlM_cons] at run
    cases step : makeDirectory target fs above with
    | error e => simp [step, bind, Except.bind] at run
    | ok next =>
      rw [step] at run
      obtain ⟨here, kept⟩ := makeDirectory_ok step
      obtain ⟨others, keeps⟩ := ih run
      exact ⟨List.forall_mem_cons.mpr ⟨keeps above here, others⟩,
        fun other found => keeps other (kept other found)⟩

/-- Making directories changes nothing off the way to them. -/
theorem find?_of_createDirectories {made : FileSystem} {other : Path}
    (created : fs.createDirectories path = .ok made) (outside : other ∉ way path) :
    made.find? other = fs.find? other := by
  rw [createDirectories_eq] at created
  generalize way path = paths at created outside
  induction paths generalizing fs with
  | nil =>
    cases created
    rfl
  | cons above paths ih =>
    rw [List.mem_cons, not_or] at outside
    rw [List.foldlM_cons] at created
    cases step : makeDirectory path fs above with
    | error e => simp [step, bind, Except.bind] at created
    | ok next =>
      rw [step] at created
      rw [ih created outside.2]
      unfold makeDirectory at step
      split at step
      case h_1 =>
        cases step
        rfl
      case h_2 => cases step
      case h_3 absent =>
        cases step
        have below : above ≠ [] := by
          rintro rfl
          cases absent
        exact find?_put_of_ne below fs .directory outside.1

/-- Whoever makes a directory has the way to it. -/
theorem reaches_of_createDirectories {made : FileSystem}
    (created : fs.createDirectories path = .ok made) : made.Reaches path :=
  (foldlM_makeDirectory_ok created).1

/-- A directory in one that is there: only it is made. -/
theorem createDirectories_append (reaches : fs.Reaches path) (name : String) :
    fs.createDirectories (path ++ [name]) =
      makeDirectory (path ++ [name]) fs (path ++ [name]) := by
  rw [createDirectories_eq, way_append, List.foldlM_append, foldlM_of_directories reaches]
  change List.foldlM _ fs _ = _
  rw [List.foldlM_cons]
  cases makeDirectory (path ++ [name]) fs (path ++ [name]) <;> rfl

end Directories

end FileSystem

end WorkflowEngine
