import WorkflowEngine.Text.Utf8

/-!
# A file system

A tree of directories and files, held as an association list from paths to what is there. The empty
path is the root and always a directory. Each operation is atomic; what a crash leaves of a sequence
of operations is the effect of some first part of it. Links, permissions and times are not covered.
-/
namespace WorkflowEngine

/-- Names from the root down. -/
abbrev Path := List String

namespace Path

/-- The path one written name leads to. -/
def descend (path : Path) (name : String) : Path :=
  match name with
  | "" | "." => path
  | ".." => path.dropLast
  | name => path ++ [name]

/-- The path that a text names, from a directory on unless it starts at the root. -/
def resolve (directory : Path) (written : String) : Path :=
  (written.splitOn "/").foldl descend (if written.startsWith "/" then [] else directory)

end Path

inductive FileNode where
  | file (content : Bytes)
  | directory
  deriving DecidableEq, Inhabited

/-- Why an operation on files failed. -/
inductive FileError where
  | notFound
  | isDirectory
  | notDirectory
  | alreadyExists
  deriving DecidableEq, Inhabited

def FileError.message : FileError → String
  | .notFound => "No such file or directory (os error 2)"
  | .isDirectory => "Is a directory (os error 21)"
  | .notDirectory => "Not a directory (os error 20)"
  | .alreadyExists => "File exists (os error 17)"

structure FileSystem where
  nodes : List (Path × FileNode) := []
  deriving DecidableEq, Inhabited

namespace FileSystem

def find? (fs : FileSystem) (path : Path) : Option FileNode :=
  match path with
  | [] => some .directory
  | path => (fs.nodes.find? (·.1 == path)).map (·.2)

def isDirectory (fs : FileSystem) (path : Path) : Bool := fs.find? path == some .directory

/-- The root, the directories on the way to a path, and the path. -/
def way (path : Path) : List Path := (List.range (path.length + 1)).map path.take

/-- Is a part of the way to a path a file? -/
def isBlocked (fs : FileSystem) (path : Path) : Bool :=
  (way path).dropLast.any fun above =>
    match fs.find? above with
    | some (.file _) => true
    | _ => false

/-- Put something at a path, in place of what is there. -/
def set : Path → FileNode → List (Path × FileNode) → List (Path × FileNode)
  | path, node, [] => [(path, node)]
  | path, node, (p, n) :: rest => if p = path then (path, node) :: rest else (p, n) :: set path node rest

def put (fs : FileSystem) (path : Path) (node : FileNode) : FileSystem :=
  ⟨set path node fs.nodes⟩

def absent (fs : FileSystem) (path : Path) : FileError :=
  if fs.isBlocked path then .notDirectory else .notFound

def read (fs : FileSystem) (path : Path) : Except FileError Bytes :=
  match fs.find? path with
  | some (.file content) => .ok content
  | some .directory => .error .isDirectory
  | none => .error (fs.absent path)

/-- Make a directory and those above it. -/
def createDirectories (fs : FileSystem) (path : Path) : Except FileError FileSystem :=
  (way path).foldlM (fun fs above =>
    match fs.find? above with
    | some .directory => .ok fs
    | some (.file _) => .error (if above = path then .alreadyExists else .notDirectory)
    | none => .ok (fs.put above .directory)) fs

/-- Can a file be written at a path? -/
def checkWritable (fs : FileSystem) (path : Path) : Except FileError Unit :=
  match fs.find? path with
  | some .directory => .error .isDirectory
  | some (.file _) => .ok ()
  | none => if fs.isDirectory path.dropLast then .ok () else .error (fs.absent path)

/-- The content of a file, nothing if there is none. -/
def contentOf (fs : FileSystem) (path : Path) : Bytes :=
  match fs.find? path with
  | some (.file content) => content
  | _ => []

/-- Replace the whole content of a file, which is created if it is not there. -/
def replace (fs : FileSystem) (path : Path) (content : Bytes) : Except FileError FileSystem := do
  fs.checkWritable path
  return fs.put path (.file content)

/-- Content brought to a length: cut, or filled up with zeros. -/
def resized (content : Bytes) (length : Nat) : Bytes :=
  content.take length ++ List.replicate (length - content.length) 0

/-- Bring a file to a length; it is created if it is not there. -/
def resize (fs : FileSystem) (path : Path) (length : Nat) : Except FileError FileSystem := do
  fs.checkWritable path
  return fs.put path (.file (resized (fs.contentOf path) length))

/-- Write into a file from an offset on. -/
def writeAt (fs : FileSystem) (path : Path) (offset : Nat) (bytes : Bytes) :
    Except FileError FileSystem := do
  fs.checkWritable path
  let content := fs.contentOf path
  return fs.put path
    (.file (resized content offset ++ bytes ++ content.drop (offset + bytes.length)))

/-- Write at the end of a file, which is created if it is not there. -/
def append (fs : FileSystem) (path : Path) (bytes : Bytes) : Except FileError FileSystem :=
  fs.writeAt path (fs.contentOf path).length bytes

/-- Replace the whole content of a file, making the directories above it first. -/
def write (fs : FileSystem) (path : Path) (content : Bytes) : Except FileError FileSystem := do
  (← fs.createDirectories path.dropLast).replace path content

/-- Is a path at or below another? -/
def isWithin (above path : Path) : Bool := above.isPrefixOf path

def removeTree (fs : FileSystem) (path : Path) : FileSystem :=
  ⟨fs.nodes.filter fun entry => !isWithin path entry.1⟩

/-- Give a file another place, replacing a file there. -/
def rename (fs : FileSystem) (source target : Path) : Except FileError FileSystem := do
  let content ← fs.read source
  fs.checkWritable target
  return (fs.removeTree source).put target (.file content)

/-- The names in a directory and whether each is a directory. -/
def list (fs : FileSystem) (path : Path) : Except FileError (List (String × Bool)) :=
  match fs.find? path with
  | none => .error (fs.absent path)
  | some (.file _) => .error .notDirectory
  | some .directory => .ok (fs.nodes.filterMap fun (p, node) =>
      match p.getLast? with
      | some name => if p.dropLast = path then some (name, node == .directory) else none
      | none => none)

end FileSystem

end WorkflowEngine
