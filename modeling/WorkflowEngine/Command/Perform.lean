import WorkflowEngine.Command.Arguments
import WorkflowEngine.Command.Output
import WorkflowEngine.Definition.Codec
import WorkflowEngine.Engine.Timeline
import WorkflowEngine.Node.Standard
import WorkflowEngine.Workplace

/-!
# Performing commands

A command works on files: definitions it reads, and the directory of executions, which every command
that runs or shows executions opens first. It prints as it goes, and ends with a complaint when it
fails; what it printed and wrote before stays.
-/
namespace WorkflowEngine

/-- What a command has come to: the place it leaves and what it printed so far. -/
structure Progress where
  place : Workplace
  printed : List Line := []

/-- A part of a command, which may end it with a complaint. -/
abbrev CommandStep := ExceptT String (StateM Progress)

namespace CommandStep

def print (lines : List Line) : CommandStep Unit :=
  modify fun progress => { progress with printed := progress.printed ++ lines }

def say (text : String) : CommandStep Unit := print [Line.plain text]

def place : CommandStep Workplace := return (← get).place

/-- Go on with a value, or complain. -/
def orComplain {ε α : Type} (complaint : ε → String) : Except ε α → CommandStep α
  | .ok a => return a
  | .error e => throw (complaint e)

/-- A fresh identifier. -/
def drawId : CommandStep Uuid := do
  let progress ← get
  let (id, supply) := progress.place.supply.drawId
  set { progress with place := { progress.place with supply } }
  return id

/-- The definition in a file. One without an id gets a new one. -/
def loadWorkflow (file : String) : CommandStep Workflow := do
  let place ← place
  let bytes ← orComplain (fun _ => "reading " ++ file) (place.files.read (place.locate file))
  let some text := Bytes.text? bytes | throw ("reading " ++ file)
  let fallback ← drawId
  orComplain (fun _ => "parsing " ++ file)
    (Json.decodeText (Workflow.decode fallback.toText) text)

/-- Input written as a JSON object; nothing is the empty one. -/
def readInput : Option String → CommandStep Context
  | none => return []
  | some raw => do
    let json ← orComplain (fun _ => "parsing --input") (Json.read raw)
    match Context.ofJson? json with
    | some context => return context
    | none => throw "Input must be a JSON object"

/-- An engine with the standard nodes, and a host on the directory of executions. -/
structure Workshop where
  engine : Engine
  host : Host FileStore

def openWorkshop (invocation : Invocation) : CommandStep Workshop := do
  let place ← place
  let config := Configuration.ofEnvironment place.env
  let config := { config with
    workflowTimeoutMs := invocation.timeoutMs.getD config.workflowTimeoutMs }
  let store ← orComplain (fun _ => "opening store at " ++ invocation.storeDir)
    (FileStore.openAt (place.locate invocation.storeDir) place.files)
  modify fun progress => { progress with place := { progress.place with files := store.files } }
  return {
    engine := { config, registry := Standard.registry HttpClient.offline }
    host := {
      store := store
      bus := { capacity := config.eventBufferSize }
      supply := place.supply } }

/-- Perform a call, printing its events and its summary. -/
def performCall (workshop : Workshop) (call : Call) : CommandStep Unit := do
  let receiver := workshop.host.bus.subscribe
  let (outcome, _, host) := call.perform workshop.engine workshop.host
  modify fun progress => { progress with
    place := { progress.place with files := host.store.files, supply := host.supply } }
  print ((host.bus.sentSince receiver).flatMap ExecutionEvent.lines)
  let result ← orComplain EngineError.message outcome
  print result.lines
  match result.complaint? with
  | some complaint => throw complaint
  | none => return

/-- What is wrong with a node, apart from its connections. -/
def nodeProblem? (config : Configuration) (registry : Registry) (node : NodeSpec) : Option String :=
  if config.isTrigger node.nodeType then none
  else
    match registry.get? node.nodeType with
    | none => some (node.id ++ ": " ++ (WorkflowError.unknownNodeType node.nodeType).message)
    | some executor =>
      match executor.validate node.config with
      | .error e => some (node.id ++ ": " ++ e.message)
      | .ok () => none

/-- The groups of nodes that sit on cycles. -/
def cycleText (workflow : Workflow) : String :=
  "; ".intercalate (workflow.cycles.map (" -> ".intercalate ·))

/-- Check a definition. Cycles are a problem only where the policy refuses them. -/
def validate (file : String) : CommandStep Unit := do
  say ("🔍 Validating workflow: " ++ file)
  let workflow ← loadWorkflow file
  orComplain WorkflowError.message workflow.validate
  let config := Configuration.ofEnvironment (← place).env
  let registry := Standard.registry HttpClient.offline
  let faulty := workflow.nodes.filterMap (nodeProblem? config registry)
  let cyclic := !workflow.cycles.isEmpty
  let refused := cyclic && config.cyclePolicyFor workflow == .reject
  if cyclic && !refused then
    say ("⚠️  Cycles (each node still runs at most once): " ++ cycleText workflow)
  let problems :=
    faulty ++ if refused then ["cycles not allowed: " ++ cycleText workflow] else []
  if !problems.isEmpty then
    print (problems.map fun problem => Line.plain ("   ❌ " ++ problem))
    throw (toString problems.length ++ " problem(s) found")
  say "✅ Workflow is valid:"
  say ("   Name: " ++ workflow.name)
  say ("   Nodes: " ++ toString workflow.nodes.length)
  say ("   Connections: " ++ toString workflow.connections.length)
  say ("   Entry nodes: " ++ ", ".intercalate (workflow.entryNodes config.isTrigger))

/-- A small definition that pauses for an approval. -/
def exampleWorkflow (id : WorkflowId) : Workflow :=
  let start : NodeSpec := { id := "start", nodeType := "trigger.manual" }
  let check : NodeSpec := {
    id := "check"
    nodeType := "flow.condition"
    name := some "Large amount?"
    config := Fields.ofEntries
      [("field", .string "amount"), ("operator", .string "gt"), ("value", .ofInt 100)] }
  let approve : NodeSpec := {
    id := "approve"
    nodeType := "flow.wait"
    name := some "Wait for approval"
    config := Fields.ofEntries [("event", .string "approval")] }
  let log : NodeSpec := {
    id := "log"
    nodeType := "debug.log"
    name := some "Log result"
    config := Fields.ofEntries [("message", .string "approval flow finished")] }
  let empty : Workflow := {
    id := id
    name := "Example approval workflow"
    description := some "Routes large amounts through a manual approval step" }
  ((((([start, check, approve, log].foldl Workflow.addNode empty).link "start" "check").connect
    "check" "yes" "approve" defaultPort).connect "check" "no" "log" defaultPort).link
    "approve" "log")

/-- Write the example. -/
def create (output : String) : CommandStep Unit := do
  let workflow := exampleWorkflow (← drawId).toText
  let place ← place
  let files ← orComplain FileError.message
    (place.files.replace (place.locate output) (Bytes.ofText workflow.toJson.pretty))
  modify fun progress => { progress with place := { progress.place with files } }
  say ("✨ Created example workflow: " ++ output)
  print [Line.empty]
  say "Run it with:"
  say ("  flow run --file " ++ output ++ " --input '\x7b\"amount\": 250\x7d'")
  say "Then continue the paused execution with:"
  say ("  flow resume --file " ++ output ++
    " <execution id> --input '\x7b\"approved\": true\x7d'")

/-- Perform a command. -/
def perform (invocation : Invocation) : CommandStep Unit := do
  match invocation.command with
  | .run file input user =>
    let workflow ← loadWorkflow file
    let context ← readInput input
    let workshop ← openWorkshop invocation
    say ("📋 Workflow: " ++ workflow.name)
    say ("   Nodes: " ++ toString workflow.nodes.length)
    say ("   Connections: " ++ toString workflow.connections.length)
    print [Line.empty]
    performCall workshop (.starting ⟨workflow, user, context⟩)
  | .resume file id input =>
    let workflow ← loadWorkflow file
    let context ←
      match input with
      | some _ => pure (some (← readInput input))
      | none => pure none
    let workshop ← openWorkshop invocation
    say ("🔁 Resuming " ++ id.toText ++ " (" ++ workflow.name ++ ")")
    print [Line.empty]
    performCall workshop (.resuming ⟨id, some workflow, context⟩)
  | .status id checkpoints =>
    let workshop ← openWorkshop invocation
    let record ← orComplain EngineError.message (Engine.getState workshop.host id)
    print (record.lines checkpoints)
  | .list workflow =>
    let workshop ← openWorkshop invocation
    let headers ← orComplain EngineError.message (Engine.listExecutions workshop.host workflow)
    if headers.isEmpty then say "No executions found"
    else print (headers.map ExecutionHeader.line)
  | .validate file => validate file
  | .nodes =>
    say "📦 Available Node Types:"
    print [Line.empty]
    print ((Standard.registry HttpClient.offline).executors.flatMap fun entry => entry.2.lines)
  | .create output => create output

end CommandStep

/-- How a command ended. -/
structure CommandOutcome where
  /-- 0 on success, 1 on failure, 2 on misuse. -/
  code : Nat
  printed : List Line
  complaint : Option String
  place : Workplace

/-- Perform what the arguments ask for. Help and misuse print their texts elsewhere. -/
def Workplace.command (place : Workplace) (arguments : List String) : CommandOutcome :=
  match Invocation.parse place.env arguments with
  | .error .help => ⟨0, [], none, place⟩
  | .error .misuse => ⟨2, [], none, place⟩
  | .ok invocation =>
    match (CommandStep.perform invocation).run.run { place } with
    | (.ok (), progress) => ⟨0, progress.printed, none, progress.place⟩
    | (.error complaint, progress) => ⟨1, progress.printed, some complaint, progress.place⟩

end WorkflowEngine
