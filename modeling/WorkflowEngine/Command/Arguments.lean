import WorkflowEngine.Configuration
import WorkflowEngine.Uuid

/-!
# Arguments of the command line

Arguments are read from left to right on two levels: options for every command, a command, and the
options and operands of that command, among which those for every command may stand again. An option is
written `--name value`, `--name=value`, `-n value`, `-nvalue` or `-n=value`; short ones without a value
may be joined. No value that stands by itself begins with a dash. After `--` only operands follow. A
value is looked at when the next option or operand is met, and a request for help counts as soon as it
is reached, so only what is wrong before it is.
-/
namespace WorkflowEngine

/-- What the program is asked to do. -/
inductive Command where
  /-- Execute a definition in a file. -/
  | run (file : String) (input : Option String) (user : String)
  /-- Continue a paused or failed execution. -/
  | resume (file : String) (id : ExecutionId) (input : Option String)
  | status (id : ExecutionId) (checkpoints : Bool)
  | list (workflow : Option String)
  | validate (file : String)
  | nodes
  /-- Write an example definition. -/
  | create (output : String)
  deriving DecidableEq, Inhabited

structure Invocation where
  storeDir : String
  /-- Deadline of a whole run, in milliseconds. -/
  timeoutMs : Option Nat
  verbose : Bool
  command : Command
  deriving DecidableEq, Inhabited

/-- Why the arguments ask for no command. -/
inductive NoCommand where
  | help
  | misuse
  deriving DecidableEq, Inhabited

namespace Arguments

/-- An option and the values it takes, if it takes one. -/
structure OptionSpec where
  name : String
  short : Option Char := none
  accepts : Option (String → Bool) := none

/-- What may stand on a level: options, operands in order, and commands. -/
structure LevelSpec where
  options : List OptionSpec
  operands : List (String → Bool) := []
  commands : List String := []

/-- What was read on a level so far. -/
structure Level where
  /-- Names and values of options, newest first; a flag has an empty value. -/
  given : List (String × String) := []
  operands : List String := []
  /-- An option whose value is still to be looked at, or still to come. -/
  waiting : Option (OptionSpec × Option String) := none
  /-- An operand that is still to be looked at. -/
  unchecked : Option (String × (String → Bool)) := none
  onlyOperands : Bool := false

namespace Level

def value? (level : Level) (name : String) : Option String := level.given.lookup name

def has (level : Level) (name : String) : Bool := (level.value? name).isSome

/-- Note an option, which may be given once. -/
def note (level : Level) (name value : String) : Except NoCommand Level :=
  if level.has name then .error .misuse
  else .ok { level with given := (name, value) :: level.given }

/-- Look at what was left to be looked at. -/
def resolve (level : Level) : Except NoCommand Level := do
  let level ←
    match level.unchecked with
    | some (operand, accepts) =>
      if accepts operand then
        pure { level with operands := level.operands ++ [operand], unchecked := none }
      else throw .misuse
    | none => pure level
  match level.waiting with
  | none => return level
  | some (_, none) => throw .misuse
  | some (option, some value) =>
    if option.accepts.any (· value) then
      Level.note { level with waiting := none } option.name value
    else throw .misuse

/-- An option with its value. -/
def take (level : Level) (option : OptionSpec) (value : String) : Except NoCommand Level := do
  let level ← level.resolve
  Level.resolve { level with waiting := some (option, some value) }

/-- An option whose value is still to come. -/
def await (level : Level) (option : OptionSpec) : Except NoCommand Level := do
  let level ← level.resolve
  return { level with waiting := some (option, none) }

/-- An option without a value. -/
def raise (level : Level) (option : OptionSpec) : Except NoCommand Level := do
  (← level.resolve).note option.name ""

/-- Help is asked for. -/
def askForHelp (level : Level) : Except NoCommand Level := do
  let _ ← level.resolve
  throw .help

/-- An option by its long name, with a value if one is attached. -/
def long (level : Level) (spec : LevelSpec) (name : String) (attached : Option String) :
    Except NoCommand Level :=
  if name = "help" ∧ attached = none then level.askForHelp
  else
    match spec.options.find? (·.name == name) with
    | none => .error .misuse
    | some option =>
      match option.accepts, attached with
      | some _, some value => level.take option value
      | some _, none => level.await option
      | none, some _ => .error .misuse
      | none, none => level.raise option

/-- Short options that stand together; the first that takes a value takes all that follows it. -/
def short (spec : LevelSpec) : Level → List Char → Except NoCommand Level
  | level, [] => .ok level
  | level, c :: rest =>
    if c = 'h' then level.askForHelp
    else
      match spec.options.find? (·.short == some c) with
      | none => .error .misuse
      | some option =>
        match option.accepts with
        | none => do short spec (← level.raise option) rest
        | some _ =>
          match rest with
          | [] => level.await option
          | '=' :: value => level.take option (String.ofList value)
          | value => level.take option (String.ofList value)

/-- An operand, if one more may be given. -/
def operand (level : Level) (spec : LevelSpec) (value : String) : Except NoCommand Level := do
  let level ← level.resolve
  match spec.operands[level.operands.length]? with
  | some accepts => return { level with unchecked := some (value, accepts) }
  | none => throw .misuse

end Level

/-- The parts before and after the first `=`. -/
def splitAttached (cs : List Char) : String × Option String :=
  let name := cs.takeWhile (· ≠ '=')
  let rest := cs.dropWhile (· ≠ '=')
  (String.ofList name, if rest.isEmpty then none else some (String.ofList rest.tail))

/-- Read the arguments of a level, up to a command if there is one. -/
def readLevel (spec : LevelSpec) : Level → List String →
    Except NoCommand (Level × Option (String × List String))
  | level, [] => .ok (level, none)
  | level, argument :: rest =>
    let cs := argument.toList
    match level.waiting with
    | some (option, none) =>
      if cs.head? = some '-' ∧ cs ≠ ['-'] then .error .misuse
      else readLevel spec { level with waiting := some (option, some argument) } rest
    | _ => do
      if level.onlyOperands then readLevel spec (← level.operand spec argument) rest
      else if argument ∈ spec.commands then return (level, some (argument, rest))
      else
        match cs with
        | ['-', '-'] => readLevel spec { level with onlyOperands := true } rest
        | '-' :: '-' :: name =>
          let (name, attached) := splitAttached name
          readLevel spec (← level.long spec name attached) rest
        | '-' :: c :: more => readLevel spec (← Level.short spec level (c :: more)) rest
        | _ => readLevel spec (← level.operand spec argument) rest

def anything (_ : String) : Bool := true

/-- A path is not empty. -/
def isPath (value : String) : Bool := value ≠ ""

def isId (value : String) : Bool := (Uuid.parse? value).isSome

def isCount (value : String) : Bool := (Configuration.parseCount value).isSome

/-- Options of every command. -/
def sharedOptions : List OptionSpec := [
  { name := "store-dir", accepts := some isPath },
  { name := "timeout-ms", accepts := some isCount },
  { name := "verbose", short := some 'v' }]

def fileOption : OptionSpec := { name := "file", short := some 'f', accepts := some isPath }

def inputOption : OptionSpec := { name := "input", short := some 'i', accepts := some anything }

def userOption : OptionSpec := { name := "user", short := some 'u', accepts := some anything }

/-- The options and operands of each command. -/
def commandSpecs : List (String × LevelSpec) := [
  ("run", { options := [fileOption, inputOption, userOption] }),
  ("resume", { options := [fileOption, inputOption], operands := [isId] }),
  ("status", { options := [{ name := "checkpoints", short := some 'c' }], operands := [isId] }),
  ("list",
    { options := [{ name := "workflow", short := some 'w', accepts := some anything }] }),
  ("validate", { options := [], operands := [isPath] }),
  ("nodes", { options := [] }),
  ("init", { options := [{ name := "output", short := some 'o', accepts := some isPath }] })]

/-- The command that explains the others. -/
def helpCommand : String := "help"

def commandNames : List String := commandSpecs.map (·.1) ++ [helpCommand]

/-- An argument that must be there. -/
def needed {α : Type} : Option α → Except NoCommand α
  | some value => .ok value
  | none => .error .misuse

/-- The command that a level of options and operands stands for. -/
def commandOf (name : String) (level : Level) : Except NoCommand Command := do
  let file := needed (level.value? "file")
  let operand := needed level.operands.head?
  let id := needed (level.operands.head?.bind Uuid.parse?)
  let input := level.value? "input"
  match name with
  | "run" => return .run (← file) input ((level.value? "user").getD "cli")
  | "resume" => return .resume (← file) (← id) input
  | "status" => return .status (← id) (level.has "checkpoints")
  | "list" => return .list (level.value? "workflow")
  | "validate" => return .validate (← operand)
  | "nodes" => return .nodes
  | "init" => return .create ((level.value? "output").getD "workflow.json")
  | _ => throw .misuse

/-- The variable that names the directory of executions, unless an option does. -/
def storeVariable : String := "FLOW_STORE_DIR"

def defaultStoreDir : String := ".flow/executions"

/-- The variable counts on a level that has no option for it, and then must be a path. -/
def checkVariable (env : Environment) (level : Level) : Except NoCommand Unit :=
  if level.has "store-dir" || (env.get? storeVariable).all isPath then .ok () else .error .misuse

/-- Explain the program or one of its commands. -/
def explain : List String → NoCommand
  | [] => .help
  | [name] => if name ∈ commandNames then .help else .misuse
  | _ => .misuse

end Arguments

open Arguments in
/-- Read the arguments of the program. What is given for every command counts on the command's own
level first. -/
def Invocation.parse (env : Environment) (arguments : List String) :
    Except NoCommand Invocation := do
  let outer : LevelSpec := { options := sharedOptions, commands := commandNames }
  let (shared, found) ← readLevel outer {} arguments
  let (name, rest) ← needed found
  if name = helpCommand then throw (explain rest)
  let spec ← needed (commandSpecs.lookup name)
  let (own, _) ← readLevel { spec with options := spec.options ++ sharedOptions } {} rest
  let own ← own.resolve
  checkVariable env own
  let command ← commandOf name own
  let shared ← shared.resolve
  checkVariable env shared
  let value (name : String) := own.value? name <|> shared.value? name
  return {
    storeDir := (value "store-dir" <|> env.get? storeVariable).getD defaultStoreDir
    timeoutMs := (value "timeout-ms").bind Configuration.parseCount
    verbose := own.has "verbose" || shared.has "verbose"
    command := command }

end WorkflowEngine
