import WorkflowEngine.Proofs.Command.Perform
import WorkflowEngine.Proofs.Definition.Naming
import WorkflowEngine.Proofs.Engine.Descent
import WorkflowEngine.Proofs.Session.Filed
import WorkflowEngine.Proofs.Session.Restart
import WorkflowEngine.Proofs.Store.Crash
import WorkflowEngine.Proofs.Store.Rooted
import WorkflowEngine.Proofs.Text.Split

/-!
# Resuming from the command line

A run from the command line and a later resume are two processes, which have nothing in common but the
files and the variables around them, and each of them reads the definition anew. Where the definition
has an id, what the run left paused, or failed behind a checkpoint, is taken up by the resume where its
last checkpoint says. Where it has none, each process gives it another id, and what one of them left no
other can resume.
-/
namespace WorkflowEngine

section

variable {σ : Type} [ExecutionStore σ]

/-- A record is a header with what was read of the log. -/
theorem ExecutionStore.load_ok {store : σ} {id : ExecutionId} {record : ExecutionRecord}
    (h : load store id = .ok (some record)) :
    ∃ header log, loadHeader store id = .ok (some header) ∧
      loadCheckpoints store id 0 = .ok log ∧ record = assemble header log := by
  unfold load at h
  obtain ⟨found, hheader, h⟩ := ok_of_bind h
  cases found with
  | none => cases h
  | some header =>
      obtain ⟨log, hlog, h⟩ := ok_of_bind h
      cases h
      exact ⟨header, log, hheader, hlog, rfl⟩

end

/-- What is paused, or failed behind a checkpoint, can be resumed. -/
theorem ExecutionState.canResume_ofRecord {record : ExecutionRecord}
    (h : record.header.status = .paused ∨
      record.header.status = .failed ∧ record.checkpoints ≠ []) :
    (ofRecord record).canResume = true := by
  have hstatus : (ofRecord record).status = record.header.status := rfl
  have hcheckpoints : (ofRecord record).checkpoints = record.checkpoints := rfl
  unfold canResume
  rw [hstatus, hcheckpoints]
  obtain hpaused | ⟨hfailed, hsome⟩ := h
  · rw [hpaused]
  · simp [hfailed, hsome]

namespace Workplace

/-- Later, the definition in a file is the one a command found, and the directory of executions and the
record of one of them are as it left them. -/
structure Keeps (later place left : Workplace) (file storeDir : String) (id : ExecutionId) :
    Prop where
  env : later.env = place.env
  directory : later.directory = place.directory
  file : later.text? file = place.text? file
  root : left.files.Reaches (place.locate storeDir) → later.files.Reaches (place.locate storeDir)
  record : ExecutionStore.load (⟨place.locate storeDir, later.files⟩ : FileStore) id =
    ExecutionStore.load (⟨place.locate storeDir, left.files⟩ : FileStore) id

/-- A command comes to call the engine of a workshop, and leaves what that call leaves. -/
def Calls (place : Workplace) (arguments : List String) (workshop : CommandStep.Workshop)
    (call : Call) : Prop :=
  ∃ invocation progress, Invocation.parse place.env arguments = .ok invocation ∧
    (CommandStep.perform invocation).run.run { place } =
      (CommandStep.performCall workshop call).run.run progress

/-- A command takes an execution up where its record leaves off: it calls an engine on the store, which
accepts the call and begins a run with the state of the record and the input on top of it. The run goes
on with what the last checkpoint has pending, and dispatches no node that has a checkpoint. -/
def TakesUp (place : Workplace) (arguments : List String) (storeDir : String) (workflow : Workflow)
    (record : ExecutionRecord) (given : Option Context) : Prop :=
  ∃ workshop engine host run, workshop.host.store = ⟨place.locate storeDir, place.files⟩ ∧
    place.Calls arguments workshop (.resuming ⟨record.id, some workflow, given⟩) ∧
    (∀ fuel, (Call.resuming ⟨record.id, some workflow, given⟩).play (fuel + 3) workshop.engine
        workshop.host =
      (Call.driving (Call.scopeOf workshop.engine workflow) run).play fuel engine host) ∧
    run.stage = .entering ∧ run.cancelled = false ∧
    run.state = given.elim (.ofRecord record) (ExecutionState.ofRecord record).updateContext ∧
    run.dispatched = record.checkpoints.map (·.nodeId) ∧
    run.queue = (Call.scopeOf workshop.engine workflow).continuation record.checkpoints

section

variable {place later : Workplace} {arguments : List String} {invocation : Invocation}
  {file user storeDir : String} {input : Option String} {id : ExecutionId}
  {record : ExecutionRecord}

theorem place_command (hparse : Invocation.parse place.env arguments = .ok invocation) :
    (place.command arguments).place =
      ((CommandStep.perform invocation).run.run { place }).2.place := by
  unfold command
  simp only [hparse]
  rcases (CommandStep.perform invocation).run.run { place } with ⟨_ | _, _⟩ <;> rfl

/-- A run keeps its definition and the directory of executions by itself, unless one lies in the other. -/
theorem keeps_of_apart (hparse : Invocation.parse place.env arguments = .ok invocation)
    (hcommand : invocation.command = .run file input user)
    (hapart : (place.locate file).Apart (place.locate invocation.storeDir)) (id : ExecutionId)
    (supply : Supply) :
    Keeps { place with files := (place.command arguments).place.files, supply } place
      (place.command arguments).place file invocation.storeDir id where
  env := rfl
  directory := rfl
  file := by
    apply text?_congr
    rw [place_command hparse]
    rcases CommandStep.perform_run_cases hcommand with
      hsame | ⟨text, workflow, context, store, progress, -, -, hopen, hperform⟩
    · rw [hsame]
      rfl
    · rw [hperform, CommandStep.files_performCall]
      obtain ⟨hroot, -, -, hunseen⟩ := FileStore.openAt_ok hopen
      have hbecomes := Call.becomes_play (.starting ⟨workflow, user, context⟩)
        (CommandStep.workshopOn place.drawn invocation store).engine
        (CommandStep.workshopOn place.drawn invocation store).host Call.stepBound
      rw [← hroot] at hapart
      exact (FileStore.find?_of_becomes hbecomes hapart).trans (hunseen _ (hroot ▸ hapart))
  root hreaches := hreaches
  record := rfl

/-- What a command leaves that runs a definition: an execution that was not there before is one of the
definition in the file, which was found fit to run. -/
theorem origin_of_run (hparse : Invocation.parse place.env arguments = .ok invocation)
    (hcommand : invocation.command = .run file input user)
    (hnew : ∀ header, ExecutionStore.loadHeader
      (⟨place.locate invocation.storeDir, place.files⟩ : FileStore) id ≠ .ok (some header))
    (hleft : ExecutionStore.load (⟨place.locate invocation.storeDir,
      (place.command arguments).place.files⟩ : FileStore) id = .ok (some record)) :
    ∃ text workflow, place.text? file = some text ∧
      Json.decodeText (Workflow.decode place.supply.drawId.1.toText) text = .ok workflow ∧
      record.header.id = id ∧ record.header.workflowId = workflow.id ∧
      (CommandStep.engineOf place.env invocation).accept workflow = .ok () ∧
      (place.command arguments).place.files.Reaches (place.locate invocation.storeDir) := by
  obtain ⟨header, log, hheader, -, rfl⟩ := ExecutionStore.load_ok hleft
  rw [place_command hparse] at hheader ⊢
  rcases CommandStep.perform_run_cases hcommand with
    hsame | ⟨text, workflow, context, store, progress, htext, hdecode, hopen, hperform⟩
  · rw [hsame] at hheader
    exact absurd hheader (hnew header)
  rw [hperform, CommandStep.files_performCall] at hheader ⊢
  obtain ⟨hroot, hreaches, haside, -⟩ := FileStore.openAt_ok hopen
  generalize hworkshop : CommandStep.workshopOn place.drawn invocation store = workshop at *
  have hstore : workshop.host.store = store := by
    rw [← hworkshop]
    rfl
  have hfree : OriginStore.origin? workshop.host.store id = none := by
    cases hfound : OriginStore.origin? workshop.host.store id with
    | none => rfl
    | some origin =>
        have hbefore : OriginStore.origin?
            (⟨place.locate invocation.storeDir, place.files⟩ : FileStore) id = some origin := by
          rw [← hfound, hstore]
          change FileStore.originOf _ = FileStore.originOf _
          rw [← haside id, hroot]
        obtain ⟨header, hread⟩ := FileStore.loadHeader_of_origin hbefore
        exact absurd hread (hnew header)
  have hbecomes := Call.becomes_play (.starting ⟨workflow, user, context⟩) workshop.engine
    workshop.host Call.stepBound
  rw [hstore] at hbecomes
  rw [← hroot] at hreaches
  obtain ⟨hsame, hstays⟩ := FileStore.reaches_of_becomes hbecomes hreaches
  have horigin := OriginStore.origin_of_header hheader
  rw [← hroot, ← hsame] at horigin
  obtain ⟨horigin, haccept⟩ := Call.origin_of_start ⟨workflow, user, context⟩ Call.stepBound hfree
    horigin
  rw [← hworkshop] at haccept
  exact ⟨text, workflow, htext, hdecode, congrArg Origin.id horigin,
    congrArg Origin.workflowId horigin, haccept, hroot ▸ hstays⟩

/-- The host of a run at this place, with a store in memory. -/
def inMemory (place : Workplace) : Host MemoryStore where
  store := {}
  bus := { capacity := (Configuration.ofEnvironment place.env).eventBufferSize }
  supply := place.drawn.supply

/-- Where there are no executions yet, a run leaves in files what it would leave in memory, as long as
memory holds what is read back. -/
theorem mirrors_of_run {text : String} {given : Option Context} {workflow : Workflow}
    {store : FileStore} {steps : Nat} {outcome : Except EngineError RunResult} {engine : Engine}
    {host : Host MemoryStore}
    (hparse : Invocation.parse place.env arguments = .ok invocation)
    (hcommand : invocation.command = .run file input user) (htext : place.text? file = some text)
    (hdecode : Json.decodeText (Workflow.decode place.supply.drawId.1.toText) text = .ok workflow)
    (hgiven : Command.Gives input given)
    (hopen : FileStore.openAt (place.locate invocation.storeDir) place.files = .ok store)
    (hfresh : ∀ id below, place.files.find?
      (FileStore.directory (place.locate invocation.storeDir) id ++ below) = none)
    (hexact : ∀ n ≤ steps, ((Call.starting ⟨workflow, user, given.getD []⟩).play n
      (CommandStep.engineOf place.env invocation) place.inMemory).2.2.store.Exact)
    (hover : (Call.starting ⟨workflow, user, given.getD []⟩).play steps
      (CommandStep.engineOf place.env invocation) place.inMemory = (.ended outcome, engine, host))
    (hsteps : steps ≤ Call.stepBound) :
    FileStore.Mirrors host.store
      ⟨place.locate invocation.storeDir, (place.command arguments).place.files⟩ := by
  obtain ⟨progress, hcalls⟩ := CommandStep.perform_run hcommand htext hdecode hgiven hopen
  rw [place_command hparse, hcalls, CommandStep.files_performCall]
  have hengine : (CommandStep.workshopOn place.drawn invocation store).engine =
      CommandStep.engineOf place.env invocation := rfl
  have hhost : (CommandStep.workshopOn place.drawn invocation store).host =
      place.inMemory.over store := rfl
  rw [hengine, hhost]
  generalize CommandStep.engineOf place.env invocation = initial at *
  generalize Call.starting ⟨workflow, user, given.getD []⟩ = call at *
  obtain ⟨hroot, hreaches, -, -⟩ := FileStore.openAt_ok hopen
  have hmirrors : FileStore.Mirrors place.inMemory.store store := by
    constructor
    · exact hexact 0 (Nat.zero_le steps)
    · rw [hroot]
      exact (FileStore.holding_of_open hfresh hopen).2
  obtain ⟨after, hplays, hmirrored⟩ := Call.play_over steps hmirrors hexact
  rw [hover] at hplays hmirrored
  have hafter : after.root = store.root := by
    have hbecomes := Call.becomes_play call initial (place.inMemory.over store) steps
    rw [hplays] at hbecomes
    rw [← hroot] at hreaches
    exact (FileStore.reaches_of_becomes hbecomes hreaches).1
  rw [Call.perform_of_ended hplays hsteps, ← hroot, ← hafter]
  exact hmirrored

/-- A command whose call is refused ends with the refusal. -/
theorem Calls.refused {workshop : CommandStep.Workshop} {call : Call} {cause : EngineError}
    {engine : Engine} {host : Host FileStore} (h : place.Calls arguments workshop call)
    (hrefused : call.perform workshop.engine workshop.host = (.error cause, engine, host)) :
    (place.command arguments).code = 1 ∧
      (place.command arguments).complaint = some cause.message ∧
      (place.command arguments).place.files = host.store.files := by
  obtain ⟨invocation, progress, hparse, hperform⟩ := h
  have hfiles := CommandStep.files_performCall workshop call progress
  have hresult := CommandStep.performCall_refused (congrArg Prod.fst hrefused) progress
  rw [← hperform] at hfiles hresult
  rw [hrefused] at hfiles
  unfold command
  simp only [hparse]
  rcases hrun : (CommandStep.perform invocation).run.run { place } with ⟨result, left⟩
  rw [hrun] at hfiles hresult
  cases hresult
  exact ⟨rfl, rfl, hfiles⟩

section

variable {workflow : Workflow} {text : String} {given : Option Context}

/-- What a command calls that resumes an execution. -/
private theorem calls_resuming (hparse : Invocation.parse place.env arguments = .ok invocation)
    (hcommand : invocation.command = .resume file id input) (htext : place.text? file = some text)
    (hdecode : Json.decodeText (Workflow.decode place.supply.drawId.1.toText) text = .ok workflow)
    (hgiven : Command.Gives input given)
    (hreaches : place.files.Reaches (place.locate invocation.storeDir)) :
    ∃ workshop, workshop.engine = CommandStep.engineOf place.env invocation ∧
      workshop.host.store = ⟨place.locate invocation.storeDir, place.files⟩ ∧
      place.Calls arguments workshop (.resuming ⟨id, some workflow, given⟩) := by
  obtain ⟨progress, hperform⟩ := CommandStep.perform_resume hcommand htext hdecode hgiven
    (FileStore.openAt_of_reaches hreaches)
  exact ⟨_, rfl, rfl, invocation, progress, hparse, hperform⟩

/-- A definition with the id of the execution takes it up. -/
theorem takesUp_of_own (hparse : Invocation.parse place.env arguments = .ok invocation)
    (hcommand : invocation.command = .resume file record.id input)
    (htext : place.text? file = some text)
    (hdecode : Json.decodeText (Workflow.decode place.supply.drawId.1.toText) text = .ok workflow)
    (hgiven : Command.Gives input given)
    (hreaches : place.files.Reaches (place.locate invocation.storeDir))
    (hrecord : ExecutionStore.load
      (⟨place.locate invocation.storeDir, place.files⟩ : FileStore) record.id = .ok (some record))
    (hresume : (ExecutionState.ofRecord record).canResume = true)
    (hown : workflow.id = record.header.workflowId)
    (haccept : (CommandStep.engineOf place.env invocation).accept workflow = .ok ()) :
    place.TakesUp arguments invocation.storeDir workflow record given := by
  obtain ⟨workshop, hengine, hstore, hcalls⟩ :=
    calls_resuming hparse hcommand htext hdecode hgiven hreaches
  obtain ⟨header, log, hheader, hlog, hassemble⟩ := ExecutionStore.load_ok hrecord
  rw [← hstore] at hheader hlog
  rw [← hengine] at haccept
  have hidle : workshop.engine.isActive record.id = false := by
    rw [hengine]
    rfl
  obtain ⟨active, hcancelled, hplays⟩ :=
    @Call.play_read _ _ _ _ ⟨record.id, some workflow, given⟩ _ _ hidle hheader hlog
  rw [← hassemble, Call.prepareResume_own hresume rfl hown haccept] at hplays
  obtain ⟨hplays, hscope⟩ := hplays
  unfold Call.drive at hplays
  simp only [hscope] at hplays
  refine ⟨workshop, active, _, _, hstore, hcalls, hplays, rfl, ?_, rfl, ?_, ?_⟩
  · cases given <;> exact hcancelled
  · cases given <;> rfl
  · have hstatus : (ExecutionState.ofRecord record).status ≠ .pending := by
      intro hpending
      rw [ExecutionState.canResume, hpending] at hresume
      cases hresume
    apply Run.Walks.initialQueue_eq
    · cases given <;> rfl
    · apply Or.inr
      cases given <;> exact hstatus

/-- A definition with another id resumes nothing, and the command leaves everything as it is. -/
theorem command_of_foreign (hparse : Invocation.parse place.env arguments = .ok invocation)
    (hcommand : invocation.command = .resume file record.id input)
    (htext : place.text? file = some text)
    (hdecode : Json.decodeText (Workflow.decode place.supply.drawId.1.toText) text = .ok workflow)
    (hgiven : Command.Gives input given)
    (hreaches : place.files.Reaches (place.locate invocation.storeDir))
    (hrecord : ExecutionStore.load
      (⟨place.locate invocation.storeDir, place.files⟩ : FileStore) record.id = .ok (some record))
    (hresume : (ExecutionState.ofRecord record).canResume = true)
    (hforeign : workflow.id ≠ record.header.workflowId) :
    (place.command arguments).code = 1 ∧
      (place.command arguments).complaint = some (EngineError.workflow (.invalid ("execution " ++
        record.id.toText ++ " belongs to workflow " ++ record.header.workflowId ++ ", not " ++
        workflow.id))).message ∧
      (place.command arguments).place.files = place.files := by
  obtain ⟨workshop, hengine, hstore, hcalls⟩ :=
    calls_resuming hparse hcommand htext hdecode hgiven hreaches
  obtain ⟨header, log, hheader, hlog, hassemble⟩ := ExecutionStore.load_ok hrecord
  rw [← hstore] at hheader hlog
  have hidle : workshop.engine.isActive record.id = false := by
    rw [hengine]
    rfl
  obtain ⟨active, -, hplays⟩ :=
    @Call.play_read _ _ _ _ ⟨record.id, some workflow, given⟩ _ _ hidle hheader hlog
  rw [← hassemble, Call.prepareResume_foreign hresume rfl hforeign] at hplays
  have hrefused := hcalls.refused (Call.perform_of_ended (hplays 0) (by decide))
  rw [hstore] at hrefused
  exact hrefused

end

/-- What a run from the command line left paused, or failed behind a checkpoint, is taken up by a later
resume with the same file where the definition in it has an id of its own. Where it has none, the resume
gives it another one than the run did, and is refused. -/
theorem resume_of_run (hparse : Invocation.parse place.env arguments = .ok invocation)
    (hcommand : invocation.command = .run file input user)
    (hnew : ∀ header, ExecutionStore.loadHeader
      (⟨place.locate invocation.storeDir, place.files⟩ : FileStore) id ≠ .ok (some header))
    (hleft : ExecutionStore.load (⟨place.locate invocation.storeDir,
      (place.command arguments).place.files⟩ : FileStore) id = .ok (some record))
    (hended : record.header.status = .paused ∨
      record.header.status = .failed ∧ record.checkpoints ≠ [])
    (hkeeps : later.Keeps place (place.command arguments).place file invocation.storeDir id)
    {arguments' : List String} {invocation' : Invocation} {input' : Option String}
    {given : Option Context} (hparse' : Invocation.parse later.env arguments' = .ok invocation')
    (hcommand' : invocation'.command = .resume file id input')
    (hstore : invocation'.storeDir = invocation.storeDir) (hgiven : Command.Gives input' given) :
    ∃ text workflow, place.text? file = some text ∧
      Json.decodeText (Workflow.decode place.supply.drawId.1.toText) text = .ok workflow ∧
      (Workflow.NamesItself text →
        later.TakesUp arguments' invocation.storeDir workflow record given) ∧
      (¬Workflow.NamesItself text → later.supply.drawId.1 ≠ place.supply.drawId.1 →
        (later.command arguments').code = 1 ∧
        (later.command arguments').complaint =
          some (EngineError.workflow (.invalid ("execution " ++ id.toText ++
            " belongs to workflow " ++ place.supply.drawId.1.toText ++ ", not " ++
            later.supply.drawId.1.toText))).message ∧
        (later.command arguments').place.files = later.files) := by
  obtain ⟨text, workflow, htext, hdecode, rfl, howner, haccept, hreaches⟩ :=
    origin_of_run hparse hcommand hnew hleft
  have hlocate : later.locate invocation'.storeDir = place.locate invocation.storeDir := by
    rw [hstore, locate, hkeeps.directory, locate]
  have hreaches' : later.files.Reaches (later.locate invocation'.storeDir) := by
    rw [hlocate]
    exact hkeeps.root hreaches
  have hrecord : ExecutionStore.load
      (⟨later.locate invocation'.storeDir, later.files⟩ : FileStore) record.id =
        .ok (some record) := by
    rw [hlocate]
    exact hkeeps.record.trans hleft
  have hresume := ExecutionState.canResume_ofRecord hended
  have htext' := hkeeps.file.trans htext
  refine ⟨text, workflow, htext, hdecode, ?_, ?_⟩
  · intro hnames
    rw [← hstore]
    apply takesUp_of_own hparse' hcommand' htext' _ hgiven hreaches' hrecord hresume howner.symm
    · rw [hkeeps.env, CommandStep.accept_engineOf _ invocation' invocation]
      exact haccept
    · rw [← hdecode]
      exact Workflow.decode_of_namesItself hnames _ _
  · intro hnameless hother
    obtain ⟨hid, hreads⟩ := Workflow.decode_of_nameless hnameless hdecode
    have hforeign : later.supply.drawId.1.toText ≠ record.header.workflowId := by
      rw [howner, hid]
      exact fun hsame => hother (Uuid.toText_inj hsame)
    have hrefused := command_of_foreign hparse' hcommand' htext' (hreads _) hgiven hreaches' hrecord
      hresume hforeign
    rwa [howner, hid] at hrefused

end

namespace Sample

/-- A definition of a gate, with an id or without. -/
def definition (named : Bool) : String :=
  (if named then "\x7b\"id\": \"w\", " else "\x7b") ++
    "\"name\": \"w\", \"nodes\": [\x7b\"id\": \"gate\", \"type\": \"flow.wait\"\x7d]\x7d"

/-- What it is read as. -/
def workflow (fallback : WorkflowId) (named : Bool) : Workflow where
  id := if named then "w" else fallback
  name := "w"
  nodes := [{ id := "gate", nodeType := "flow.wait" }]

theorem decode_definition (fallback : WorkflowId) (named : Bool) :
    Json.decodeText (Workflow.decode fallback) (definition named) =
      .ok (workflow fallback named) := by
  cases named <;> cbv

/-- The definition stands in a file. -/
def place (named : Bool) : Workplace where
  files := ⟨[(["flow.json"], .file (Bytes.ofText (definition named)))]⟩

def root : Path := [".flow", "executions"]

theorem resolve_store : Path.resolve [] ".flow/executions" = root := by
  have hslash : "/" = String.ofList ['/'] := rfl
  unfold Path.resolve
  rw [hslash, Text.splitOn_eq]
  decide +kernel

theorem resolve_definition : Path.resolve [] "flow.json" = ["flow.json"] := by
  have hslash : "/" = String.ofList ['/'] := rfl
  unfold Path.resolve
  rw [hslash, Text.splitOn_eq]
  decide +kernel

/-- A text stands in the file. -/
def holding (text : String) : Workplace where
  files := ⟨[(["flow.json"], .file (Bytes.ofText text))]⟩

theorem text?_holding (text : String) : (holding text).text? "flow.json" = some text := by
  have hread : (holding text).files.read ((holding text).locate "flow.json") =
      .ok (Bytes.ofText text) := by
    change (holding text).files.read (Path.resolve [] "flow.json") = _
    rw [resolve_definition]
    rfl
  unfold text?
  rw [hread]
  exact Bytes.text?_ofText _

theorem text?_place (named : Bool) : (place named).text? "flow.json" = some (definition named) :=
  text?_holding (definition named)

theorem fresh (named : Bool) (id : ExecutionId) (below : Path) :
    (place named).files.find? (FileStore.directory root id ++ below) = none := by
  rw [FileSystem.find?_eq (by simp [FileStore.directory])]
  rfl

def firstId : ExecutionId := Uuid.version4 1

def running : List String := ["run", "-f", "flow.json"]

def resuming : List String := ["resume", "-f", "flow.json", firstId.toText]

/-- What a command is asked to do with the default directory and deadline. -/
def invocation (command : Command) : Invocation := ⟨".flow/executions", none, false, command⟩

def runs : Command := .run "flow.json" none "cli"

def resumes : Command := .resume "flow.json" firstId none

theorem parse_running (named : Bool) :
    Invocation.parse (place named).env running = .ok (invocation runs) := by
  change Invocation.parse [] running = _
  decide

/-- The run of the definition in memory, after some steps. -/
def played (named : Bool) (steps : Nat) : Call × Engine × Host MemoryStore :=
  (Call.starting ⟨workflow (Uuid.version4 0).toText named, "cli", []⟩).play steps
    (CommandStep.engineOf [] (invocation runs)) (place named).inMemory

/-- Nothing but texts is written. -/
theorem exact_played (named : Bool) : ∀ n ≤ 11, (played named n).2.2.store.Exact := by
  have hnumberless : ∀ named, ∀ n ≤ 11, ∀ e ∈ (played named n).2.2.store.executions,
      e.Of (fun _ => False) ∧ e.Shallow := by
    decide +kernel
  intro n hn id e he
  obtain ⟨hof, hshallow⟩ := hnumberless named n hn e (List.mem_of_find?_eq_some he)
  exact ⟨hof.mono fun _ hnone => hnone.elim, hshallow⟩

/-- It ends, and leaves a paused execution. -/
theorem ended_played (named : Bool) :
    ∃ outcome engine host record, played named 11 = (.ended outcome, engine, host) ∧
      ExecutionStore.load host.store firstId = .ok (some record) ∧
      record.header.status = .paused := by
  have hchecked : ∀ named, (played named 11).1.outcome?.isSome = true ∧
      ((played named 11).2.2.store.find? firstId).map (·.header.status) = some .paused := by
    decide
  obtain ⟨hover, hpaused⟩ := hchecked named
  generalize played named 11 = played at *
  obtain ⟨call, engine, host⟩ := played
  obtain ⟨execution, hfound, hstatus⟩ := Option.map_eq_some_iff.mp hpaused
  cases call with
  | ended outcome =>
      refine ⟨outcome, engine, host,
        ExecutionStore.assemble execution.header execution.log, rfl, ?_, hstatus⟩
      rw [MemoryStore.load_eq, hfound]
      rfl
  | starting | created | resuming | loading | loadingLog | driving => cases hover

/-- What the run leaves in files. -/
def left (named : Bool) : Workplace := ((place named).command running).place

/-- What it leaves of an execution. -/
def left? (named : Bool) (id : ExecutionId) : Except StoreError (Option ExecutionRecord) :=
  ExecutionStore.load (⟨(place named).locate ".flow/executions", (left named).files⟩ : FileStore) id

theorem paused_left (named : Bool) :
    ∃ record, left? named firstId = .ok (some record) ∧ record.header.status = .paused := by
  obtain ⟨store, hopen⟩ : ∃ store, FileStore.openAt root (place named).files = .ok store := ⟨_, rfl⟩
  obtain ⟨outcome, engine, host, record, hover, hload, hpaused⟩ := ended_played named
  have hroot : (place named).locate (invocation runs).storeDir = root := resolve_store
  have hmirrors := mirrors_of_run (parse_running named) rfl (text?_place named)
    (decode_definition _ named) rfl (hroot ▸ hopen) (hroot ▸ fresh named) (exact_played named)
    hover (by decide)
  exact ⟨record, (hmirrors.tells.load firstId).trans hload, hpaused⟩

theorem new_execution (named : Bool) (header : ExecutionHeader) :
    ExecutionStore.loadHeader (⟨(place named).locate ".flow/executions", (place named).files⟩ :
      FileStore) firstId ≠ .ok (some header) := by
  apply FileStore.loadHeader_of_absent
  change (place named).files.find? (FileStore.headerPath (Path.resolve [] ".flow/executions") _) = _
  rw [resolve_store]
  exact fresh named firstId _

/-- Another process, in which other identifiers are drawn. -/
def later (named : Bool) : Workplace :=
  { place named with files := (left named).files, supply := { nextId := 7 } }

theorem keeps_later (named : Bool) :
    (later named).Keeps (place named) (left named) "flow.json" ".flow/executions" firstId := by
  apply keeps_of_apart (parse_running named) rfl
  change Path.Apart (Path.resolve [] "flow.json") (Path.resolve [] ".flow/executions")
  rw [resolve_definition, resolve_store]
  constructor <;> decide

theorem parse_resuming (named : Bool) :
    Invocation.parse (later named).env resuming = .ok (invocation resumes) := by
  change Invocation.parse [] resuming = _
  decide

end Sample

/-- A definition with an id is run up to a gate, and resumed behind it by another process. -/
theorem resume_of_run_of_pause :
    ∃ record, Sample.left? true Sample.firstId = .ok (some record) ∧
      record.header.status = .paused ∧
      (Sample.later true).TakesUp Sample.resuming ".flow/executions"
        (Sample.workflow (Uuid.version4 0).toText true) record none := by
  obtain ⟨record, hleft, hpaused⟩ := Sample.paused_left true
  have hgiven : Command.Gives none none := rfl
  obtain ⟨text, workflow, htext, hdecode, hnamed, -⟩ :=
    resume_of_run (Sample.parse_running true) rfl (Sample.new_execution true) hleft (.inl hpaused)
      (Sample.keeps_later true) (Sample.parse_resuming true) rfl rfl hgiven
  cases htext.symm.trans (Sample.text?_place true)
  cases hdecode.symm.trans (Sample.decode_definition _ true)
  refine ⟨record, hleft, hpaused, hnamed ?_⟩
  by_contra hnameless
  have hid := (Workflow.decode_of_nameless hnameless hdecode).1
  revert hid
  decide

/-- A definition without an id is run up to a gate, and nothing can resume it. -/
theorem refused_of_nameless :
    ∃ record, Sample.left? false Sample.firstId = .ok (some record) ∧
      record.header.status = .paused ∧
      (Sample.later false).Keeps (Sample.place false) (Sample.left false) "flow.json"
        ".flow/executions" Sample.firstId ∧
      ((Sample.later false).command Sample.resuming).code = 1 ∧
      ((Sample.later false).command Sample.resuming).complaint =
        some (EngineError.workflow (.invalid ("execution " ++ Sample.firstId.toText ++
          " belongs to workflow " ++ (Uuid.version4 0).toText ++ ", not " ++
          (Uuid.version4 7).toText))).message ∧
      ((Sample.later false).command Sample.resuming).place.files = (Sample.later false).files := by
  obtain ⟨record, hleft, hpaused⟩ := Sample.paused_left false
  have hkeeps := Sample.keeps_later false
  obtain ⟨text, workflow, htext, hdecode, hid, howner, -, hreaches⟩ :=
    origin_of_run (Sample.parse_running false) rfl (Sample.new_execution false) hleft
  cases htext.symm.trans (Sample.text?_place false)
  cases hdecode.symm.trans (Sample.decode_definition _ false)
  have hcommand : Sample.resumes = .resume "flow.json" record.id none := by
    rw [ExecutionRecord.id, hid]
    rfl
  have hrecord : ExecutionStore.load (⟨(Sample.later false).locate ".flow/executions",
      (Sample.later false).files⟩ : FileStore) record.id = .ok (some record) := by
    rw [ExecutionRecord.id, hid]
    exact hleft
  have hforeign : (Sample.workflow (Sample.later false).supply.drawId.1.toText false).id ≠
      record.header.workflowId := by
    rw [howner]
    decide
  have hrefused := command_of_foreign (Sample.parse_resuming false) hcommand
    (hkeeps.file.trans (Sample.text?_place false)) (Sample.decode_definition _ false) rfl
    (hkeeps.root hreaches) hrecord (ExecutionState.canResume_ofRecord (.inl hpaused)) hforeign
  rw [howner, ExecutionRecord.id, hid] at hrefused
  exact ⟨record, hleft, hpaused, hkeeps, hrefused⟩

end Workplace

end WorkflowEngine
