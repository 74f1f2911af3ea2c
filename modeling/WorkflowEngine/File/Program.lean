import WorkflowEngine.File.System

/-!
# Programs over files

A program that works on files is a sequence of single operations, each depending on the answers before.
Whoever runs it decides what happens between two operations: nothing, operations of another program,
or the end of the process.
-/
namespace WorkflowEngine

inductive FileOp where
  | createDirectories (path : Path)
  | read (path : Path)
  | list (path : Path)
  | resize (path : Path) (length : Nat)
  | writeAt (path : Path) (offset : Nat) (bytes : Bytes)
  | replace (path : Path) (content : Bytes)
  | rename (source target : Path)
  deriving DecidableEq, Inhabited

/-- What a successful operation answers. -/
def FileOp.Answer : FileOp → Type
  | .read _ => Bytes
  | .list _ => List (String × Bool)
  | _ => Unit

abbrev FileOp.Reply (op : FileOp) : Type := Except FileError op.Answer

/-- The outcome of an operation that changes files. -/
def FileSystem.changed (fs : FileSystem) (result : Except FileError FileSystem) :
    Except FileError Unit × FileSystem :=
  match result with
  | .ok next => (.ok (), next)
  | .error e => (.error e, fs)

/-- Perform one operation. One that fails changes nothing. -/
def FileSystem.perform (fs : FileSystem) : (op : FileOp) → op.Reply × FileSystem
  | .createDirectories path => fs.changed (fs.createDirectories path)
  | .read path => (fs.read path, fs)
  | .list path => (fs.list path, fs)
  | .resize path length => fs.changed (fs.resize path length)
  | .writeAt path offset bytes => fs.changed (fs.writeAt path offset bytes)
  | .replace path content => fs.changed (fs.replace path content)
  | .rename source target => fs.changed (fs.rename source target)

inductive FileProgram (α : Type) where
  | done (result : α)
  | step (op : FileOp) (next : op.Reply → FileProgram α)

namespace FileProgram

variable {α β : Type}

def bind : FileProgram α → (α → FileProgram β) → FileProgram β
  | .done a, f => f a
  | .step op next, f => .step op fun reply => bind (next reply) f

instance : Monad FileProgram where
  pure := .done
  bind := bind

/-- Run a program without interruption. -/
def run : FileProgram α → FileSystem → α × FileSystem
  | .done a, fs => (a, fs)
  | .step op next, fs =>
    let (reply, fs) := fs.perform op
    run (next reply) fs

/-- What is left when the process stops after a number of operations. -/
def stoppedAfter : (count : Nat) → FileProgram α → FileSystem → FileSystem
  | 0, _, fs => fs
  | _, .done _, fs => fs
  | count + 1, .step op next, fs =>
    let (reply, fs) := fs.perform op
    stoppedAfter count (next reply) fs

/-- The program of a single operation. -/
def perform (op : FileOp) : FileProgram op.Reply := .step op .done

end FileProgram

end WorkflowEngine
