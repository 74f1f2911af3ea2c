import Std.Time.DateTime.Timestamp
import WorkflowEngine.Command.Perform

/-!
# The program

Takes in the files a command names, performs it, prints what it says and puts the changed files back.
Requests over a network are not sent.
-/
namespace WorkflowEngine

namespace Program

/-- Variables that commands read. -/
def variableNames : List String :=
  ["FLOW_STORE_DIR", "FLOW_EVENT_BUFFER", "WORKFLOW_TIMEOUT_MS", "FLOW_NODE_TIMEOUT_MS",
    "FLOW_CYCLE_POLICY", "FLOW_TRIGGER_TYPES"]

def textOf (path : Path) : String := "/" ++ "/".intercalate path

/-- Take in what is at a path, and below it if that is asked for. -/
partial def takeIn (below : Bool) (files : FileSystem) (path : Path) : IO FileSystem := do
  let place := (← IO.currentDir) / textOf path
  if ← place.isDir then
    let files := files.put path .directory
    if below then
      (← place.readDir).foldlM (fun files entry => takeIn true files (path ++ [entry.fileName])) files
    else return files
  else if ← place.pathExists then
    return files.put path (.file (← IO.FS.readBinFile place).toList)
  else return files

/-- Files a command names. -/
def filesOf : Command → List String
  | .run file .. | .resume file .. | .validate file | .create file => [file]
  | _ => []

/-- Take in what a command is about. -/
def gather (place : Workplace) (invocation : Invocation) : IO FileSystem := do
  let store := place.locate invocation.storeDir
  let named := (filesOf invocation.command).map place.locate
  let above := (named ++ [store]).flatMap FileSystem.way
  let files ← above.foldlM (takeIn false) place.files
  takeIn true files store

/-- Put back what a command changed. -/
def putBack (before after : FileSystem) : IO Unit := do
  for (path, node) in after.nodes do
    if before.find? path ≠ some node then
      match node with
      | .directory => IO.FS.createDirAll (textOf path)
      | .file content => IO.FS.writeBinFile (textOf path) content.toByteArray
  for (path, node) in before.nodes do
    if node ≠ .directory && (after.find? path).isNone then IO.FS.removeFile (textOf path)

/-- Identifiers from random bytes, times from the clock. -/
def supply : IO Supply := do
  let bytes ← IO.getRandomBytes 16
  let now ← Std.Time.Timestamp.now
  return {
    nextId := bytes.toList.foldl (fun n b => n * 256 + b.toNat) 0
    clock := now.toNanosecondsSinceUnixEpoch.val.toNat }

def usage : String :=
  "Usage: flow [--store-dir DIR] [--timeout-ms MS] [--verbose] " ++
    "run|resume|status|list|validate|nodes|init|help"

def run (arguments : List String) : IO UInt32 := do
  let env ← variableNames.filterMapM fun name => do
    return (← IO.getEnv name).map fun value => (name, value)
  match Invocation.parse env arguments with
  | .error .help => IO.println usage; return 0
  | .error .misuse => IO.eprintln usage; return 2
  | .ok invocation =>
    let place : Workplace := {
      directory := Path.resolve [] (← IO.currentDir).toString, env, supply := ← supply }
    let files ← gather place invocation
    let outcome := { place with files }.command arguments
    for line in outcome.printed do IO.println line.toText
    putBack files outcome.place.files
    match outcome.complaint with
    | some complaint => IO.eprintln ("Error: " ++ complaint)
    | none => pure ()
    return outcome.code.toUInt32

end Program

end WorkflowEngine

def main (arguments : List String) : IO UInt32 := WorkflowEngine.Program.run arguments
