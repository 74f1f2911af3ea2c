import WorkflowEngine.Execution.Codec
import WorkflowEngine.File.Program
import WorkflowEngine.Json.Printer
import WorkflowEngine.Store.Basic

/-!
# The store in files

Every execution has a directory of its id. The header is kept in one file, which is replaced by writing
a temporary file and renaming it; the log is kept in another, one checkpoint a line. The header carries
the committed length of the log: bytes past it belong to a commit that never finished, are ignored by
readers, and are cut off by the next commit that appends.

Every operation is a program over files, so that what two processes or a crash do to one another can
be told. Within one process commits exclude each other.
-/
namespace WorkflowEngine

/-- A header as it is kept in its file. -/
structure StoredHeader where
  header : ExecutionHeader
  /-- The committed length of the log. -/
  logBytes : Nat
  deriving Inhabited

namespace StoredHeader

def toJson (stored : StoredHeader) : Json :=
  .object (stored.header.entries ++ [("log_bytes", .nat stored.logBytes)])

def decode : Json.Decode StoredHeader := fun json => do
  let parts ← Json.Parts.ofObject json
  return {
    header := ← ExecutionHeader.ofParts true parts
    logBytes := ← parts.required 12 "log_bytes" (Json.Decode.natBelow UInt64.size) }

/-- The content of the header file. -/
def encode (stored : StoredHeader) : Bytes := Bytes.ofText stored.toJson.pretty

end StoredHeader

/-- A typed value from bytes. -/
def Bytes.decode {α : Type} (item : Json.Decode α) (bytes : Bytes) : Except StoreError α :=
  match Bytes.text? bytes with
  | none => .error (.corrupt (.malformed "text"))
  | some text =>
    match Json.decodeText item text with
    | .ok a => .ok a
    | .error cause => .error (.corrupt cause)

/-- A program over files that may fail. -/
abbrev StoreProgram (α : Type) := ExceptT StoreError FileProgram α

namespace FileStore

def headerFile : String := "record.json"

def temporaryFile : String := headerFile ++ ".tmp"

def logFile : String := "checkpoints.jsonl"

/-- The directory of an execution. -/
def directory (root : Path) (id : ExecutionId) : Path := root ++ [id.toText]

def headerPath (root : Path) (id : ExecutionId) : Path := directory root id ++ [headerFile]

def temporaryPath (root : Path) (id : ExecutionId) : Path := directory root id ++ [temporaryFile]

def logPath (root : Path) (id : ExecutionId) : Path := directory root id ++ [logFile]

/-- A line of the log. -/
def line (checkpoint : Checkpoint) : Bytes := Bytes.ofText checkpoint.toJson.compact ++ [10]

/-- One operation, whose failure fails the program. -/
def perform (op : FileOp) : StoreProgram op.Answer :=
  ExceptT.mk do
    match ← FileProgram.perform op with
    | .ok answer => return .ok answer
    | .error e => return .error (.io e.message)

/-- The header in a file; a file that is not there holds none. -/
def readHeaderAt (path : Path) : StoreProgram (Option StoredHeader) :=
  ExceptT.mk do
    match ← FileProgram.perform (.read path) with
    | .ok bytes => return (Bytes.decode StoredHeader.decode bytes).map some
    | .error .notFound => return .ok none
    | .error e => return .error (.io e.message)

def readHeader (root : Path) (id : ExecutionId) : StoreProgram (Option StoredHeader) :=
  readHeaderAt (headerPath root id)

/-- Replace the header: write the temporary file, then rename it. -/
def writeHeader (root : Path) (stored : StoredHeader) : StoreProgram Unit := do
  let id := stored.header.id
  perform (.replace (temporaryPath root id) stored.encode)
  perform (.rename (temporaryPath root id) (headerPath root id))

def insertProgram (root : Path) (header : ExecutionHeader) : StoreProgram Unit := do
  if (← readHeader root header.id).isSome then throw (.alreadyExists header.id)
  perform (.createDirectories (directory root header.id))
  writeHeader root ⟨header, 0⟩

/-- Cut the log to its committed length and append. -/
def appendLog (root : Path) (id : ExecutionId) (committed : Nat) (bytes : Bytes) :
    StoreProgram Unit := do
  perform (.resize (logPath root id) committed)
  perform (.writeAt (logPath root id) committed bytes)

def commitProgram (root : Path) (c : Commit) : StoreProgram Unit := do
  match ← readHeader root c.header.id with
  | none => throw (.notFound c.header.id)
  | some current =>
    match current.header.checkVersion c.expected with
    | .error e => throw e
    | .ok () =>
      if c.appended.isEmpty then writeHeader root ⟨c.header, current.logBytes⟩
      else
        let bytes := c.appended.flatMap line
        appendLog root c.header.id current.logBytes bytes
        writeHeader root ⟨c.header, current.logBytes + bytes.length⟩

/-- The lines of a log, without the empty ones. -/
def lines : Bytes → List Bytes
  | [] => []
  | b :: rest =>
    if b = 10 then lines rest
    else
      (b :: rest.takeWhile (· ≠ 10)) :: lines (rest.dropWhile (· ≠ 10))
termination_by bytes => bytes.length
decreasing_by
  · simp
  · simp only [List.length_cons]
    have := (List.dropWhile_suffix (l := rest) (· ≠ 10)).length_le
    omega

/-- The checkpoints of a log from a position on. -/
def readLog (bytes : Bytes) (start : Nat) : Except StoreError (List Checkpoint) := do
  let checkpoints ← (lines bytes).mapM (Bytes.decode Checkpoint.decode)
  return checkpoints.filter (start ≤ ·.sequence)

def loadCheckpointsProgram (root : Path) (id : ExecutionId) (start : Nat) :
    StoreProgram (List Checkpoint) := do
  match ← readHeader root id with
  | none => throw (.notFound id)
  | some stored =>
    if stored.logBytes = 0 then return []
    let bytes ← perform (.read (logPath root id))
    ExceptT.mk (.done (readLog (bytes.take stored.logBytes) start))

/-- The readable headers in the directories of a list. -/
def readHeaders (root : Path) : List (String × Bool) → FileProgram (List ExecutionHeader)
  | [] => .done []
  | (name, isDirectory) :: rest => do
    let found ←
      if isDirectory then (readHeaderAt (root ++ [name, headerFile])).run
      else pure (.ok none)
    let others ← readHeaders root rest
    match found with
    | .ok (some stored) => return stored.header :: others
    | _ => return others

def listProgram (root : Path) (workflowId : Option WorkflowId) :
    StoreProgram (List ExecutionHeader) := do
  let names ← perform (.list root)
  let headers ← ExceptT.lift (readHeaders root names)
  return ExecutionHeader.newestFirst (headers.filter (·.isOf workflowId))

end FileStore

/-- A root directory in a file system. -/
structure FileStore where
  root : Path
  files : FileSystem
  deriving Inhabited

namespace FileStore

/-- A store on a directory, which is made if it is not there. -/
def openAt (root : Path) (files : FileSystem) : Except StoreError FileStore :=
  match files.createDirectories root with
  | .ok files => .ok ⟨root, files⟩
  | .error e => .error (.io e.message)

/-- Run a program that changes files. -/
def change (store : FileStore) (program : StoreProgram Unit) : Except StoreError Unit × FileStore :=
  let (result, files) := FileProgram.run program.run store.files
  (result, { store with files })

/-- Run a program that only reads. -/
def query {α : Type} (store : FileStore) (program : StoreProgram α) : Except StoreError α :=
  (FileProgram.run program.run store.files).1

instance : ExecutionStore FileStore where
  insert store header := store.change (insertProgram store.root header)
  commit store c := store.change (commitProgram store.root c)
  loadHeader store id :=
    (store.query (readHeader store.root id)).map (·.map (·.header))
  loadCheckpoints store id start := store.query (loadCheckpointsProgram store.root id start)
  list store workflowId := store.query (listProgram store.root workflowId)

end FileStore

end WorkflowEngine
