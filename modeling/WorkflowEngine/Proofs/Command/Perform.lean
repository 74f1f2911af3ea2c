import WorkflowEngine.Command.Perform

/-!
# How commands go

A command is performed part by part, each on what the one before has left, up to the first complaint.
Those that run executions read a definition, then the input, open the store and perform a call; where
they come as far as that, the call decides about everything that is left.
-/
namespace WorkflowEngine

/-- The text of a file, if it is one. -/
def Workplace.text? (place : Workplace) (file : String) : Option String :=
  (place.files.read (place.locate file)).toOption.bind Bytes.text?

theorem Workplace.text?_congr {place other : Workplace} {file : String}
    (hfound : other.files.find? (other.locate file) = place.files.find? (place.locate file)) :
    other.text? file = place.text? file := by
  unfold text? FileSystem.read
  rw [hfound]
  rcases place.files.find? (place.locate file) with _ | _ | _ <;> rfl

/-- The place after an identifier was drawn there. -/
def Workplace.drawn (place : Workplace) : Workplace :=
  { place with supply := place.supply.drawId.2 }

/-- The object that is written as input, if there is any. -/
def Command.Gives : Option String → Option Context → Prop
  | none, given => given = none
  | some raw, given => ∃ json context, Json.read raw = .ok json ∧
      Context.ofJson? json = some context ∧ given = some context

namespace CommandStep

section

variable {α β : Type} {progress : Progress}

/-- One part of a command after the other. -/
theorem run_bind (first : CommandStep α) (next : α → CommandStep β) (progress : Progress) :
    (first >>= next).run.run progress =
      match first.run.run progress with
      | (.ok a, progress) => (next a).run.run progress
      | (.error complaint, progress) => (.error complaint, progress) := by
  rcases h : first.run.run progress with ⟨_ | _, _⟩ <;>
    simp only [ExceptT.run_bind, StateT.run_bind, h] <;> rfl

theorem run_pure (a : α) : (pure a : CommandStep α).run.run progress = (.ok a, progress) := rfl

theorem run_throw (complaint : String) :
    (throw complaint : CommandStep α).run.run progress = (.error complaint, progress) := rfl

theorem run_place : place.run.run progress = (.ok progress.place, progress) := rfl

theorem run_print (lines : List Line) :
    (print lines).run.run progress =
      (.ok (), { progress with printed := progress.printed ++ lines }) := rfl

theorem run_modify (change : Progress → Progress) :
    (modify change : CommandStep Unit).run.run progress = (.ok (), change progress) := rfl

theorem run_orComplain {ε : Type} (complaint : ε → String) (result : Except ε α) :
    (orComplain complaint result).run.run progress = (result.mapError complaint, progress) := by
  cases result <;> rfl

theorem mapError_ok {ε ε' : Type} (complaint : ε → ε') (a : α) :
    (Except.ok a : Except ε α).mapError complaint = .ok a := rfl

theorem mapError_error {ε ε' : Type} (complaint : ε → ε') (cause : ε) :
    (Except.error cause : Except ε α).mapError complaint = .error (complaint cause) := rfl

theorem run_drawId :
    drawId.run.run progress =
      (.ok progress.place.supply.drawId.1, { progress with place := progress.place.drawn }) := rfl

variable {file : String} {text : String}

/-- What can be read of a definition is a matter of its text, and of the identifier at hand. -/
theorem run_loadWorkflow (htext : progress.place.text? file = some text) :
    (loadWorkflow file).run.run progress =
      ((Json.decodeText (Workflow.decode progress.place.supply.drawId.1.toText) text).mapError
        fun _ => "parsing " ++ file, { progress with place := progress.place.drawn }) := by
  unfold Workplace.text? at htext
  cases hread : progress.place.files.read (progress.place.locate file) with
  | error e =>
      rw [hread] at htext
      cases htext
  | ok bytes =>
      rw [hread] at htext
      replace htext : Bytes.text? bytes = some text := htext
      simp only [loadWorkflow, run_bind, run_place, run_orComplain, hread, htext, mapError_ok,
        run_drawId]

theorem run_loadWorkflow_none (htext : progress.place.text? file = none) :
    (loadWorkflow file).run.run progress = (.error ("reading " ++ file), progress) := by
  unfold Workplace.text? at htext
  cases hread : progress.place.files.read (progress.place.locate file) with
  | error e =>
      simp only [loadWorkflow, run_bind, run_place, run_orComplain, hread, mapError_error]
  | ok bytes =>
      rw [hread] at htext
      replace htext : Bytes.text? bytes = none := htext
      simp only [loadWorkflow, run_bind, run_place, run_orComplain, hread, htext, mapError_ok,
        run_throw]

/-- Input is read without a trace. -/
theorem run_readInput (input : Option String) :
    ((readInput input).run.run progress).2 = progress := by
  cases input with
  | none => rfl
  | some raw =>
      unfold readInput
      simp only [run_bind, run_orComplain]
      cases Json.read raw with
      | error cause => rfl
      | ok json =>
          simp only [mapError_ok]
          cases Context.ofJson? json <;> rfl

theorem run_readInput_some {raw : String} {json : Json} {context : Context}
    (hread : Json.read raw = .ok json) (hobject : Context.ofJson? json = some context) :
    (readInput (some raw)).run.run progress = (.ok context, progress) := by
  simp only [readInput, run_bind, run_orComplain, hread, mapError_ok, hobject, run_pure]

end

section

variable {place : Workplace} {invocation : Invocation} {progress : Progress}

/-- The engine of an invocation. -/
def engineOf (env : Environment) (invocation : Invocation) : Engine where
  config := { Configuration.ofEnvironment env with
    workflowTimeoutMs := invocation.timeoutMs.getD
      (Configuration.ofEnvironment env).workflowTimeoutMs }
  registry := Standard.registry HttpClient.offline

/-- Whether a definition is fit to run is a matter of the variables only. -/
theorem accept_engineOf (env : Environment) (first second : Invocation) (workflow : Workflow) :
    (engineOf env first).accept workflow = (engineOf env second).accept workflow := rfl

/-- The workshop of an invocation on a store. -/
def workshopOn (place : Workplace) (invocation : Invocation) (store : FileStore) : Workshop where
  engine := engineOf place.env invocation
  host := {
    store := store
    bus := { capacity := (Configuration.ofEnvironment place.env).eventBufferSize }
    supply := place.supply }

theorem run_openWorkshop :
    (openWorkshop invocation).run.run progress =
      match FileStore.openAt (progress.place.locate invocation.storeDir) progress.place.files with
      | .ok store => (.ok (workshopOn progress.place invocation store),
          { progress with place := { progress.place with files := store.files } })
      | .error _ => (.error ("opening store at " ++ invocation.storeDir), progress) := by
  simp only [openWorkshop, run_bind, run_place, run_orComplain]
  cases FileStore.openAt (progress.place.locate invocation.storeDir) progress.place.files <;> rfl

/-- A call leaves the files that its host has in the end. -/
theorem files_performCall (workshop : Workshop) (call : Call) (progress : Progress) :
    ((performCall workshop call).run.run progress).2.place.files =
      (call.perform workshop.engine workshop.host).2.2.store.files := by
  rcases hperform : call.perform workshop.engine workshop.host with ⟨outcome, engine, host⟩
  unfold performCall
  simp only [hperform, run_bind, run_modify, run_print, run_orComplain]
  cases outcome with
  | error cause => rfl
  | ok result =>
      simp only [mapError_ok]
      cases result.complaint? <;> rfl

/-- A call that is refused ends its command with the refusal. -/
theorem performCall_refused {workshop : Workshop} {call : Call} {cause : EngineError}
    (hrefused : (call.perform workshop.engine workshop.host).1 = .error cause)
    (progress : Progress) :
    ((performCall workshop call).run.run progress).1 = .error cause.message := by
  rcases hperform : call.perform workshop.engine workshop.host with ⟨outcome, engine, host⟩
  rw [hperform] at hrefused
  cases hrefused
  unfold performCall
  simp only [hperform, run_bind, run_modify, run_print, run_orComplain]
  rfl

/-- A command that runs a definition leaves the files alone, unless it comes to call the engine. -/
theorem perform_run_cases {file user : String} {input : Option String}
    (hcommand : invocation.command = .run file input user) :
    ((perform invocation).run.run { place }).2.place.files = place.files ∨
    ∃ text workflow context store progress, place.text? file = some text ∧
      Json.decodeText (Workflow.decode place.supply.drawId.1.toText) text = .ok workflow ∧
      FileStore.openAt (place.locate invocation.storeDir) place.files = .ok store ∧
      (perform invocation).run.run { place } =
        (performCall (workshopOn place.drawn invocation store)
          (.starting ⟨workflow, user, context⟩)).run.run progress := by
  unfold perform
  simp only [hcommand, run_bind]
  cases htext : place.text? file with
  | none =>
      rw [run_loadWorkflow_none htext]
      exact .inl rfl
  | some text =>
      rw [run_loadWorkflow htext]
      cases hdecode : Json.decodeText (Workflow.decode place.supply.drawId.1.toText) text with
      | error cause => exact .inl rfl
      | ok workflow =>
          simp only [mapError_ok]
          have hkept := @run_readInput { place := place.drawn } input
          rcases hinput : (readInput input).run.run { place := place.drawn } with ⟨given, progress⟩
          rw [hinput] at hkept
          replace hkept : progress = _ := hkept
          subst hkept
          cases given with
          | error complaint => exact .inl rfl
          | ok context =>
              have hlocate : place.drawn.locate invocation.storeDir =
                  place.locate invocation.storeDir := rfl
              have hfiles : place.drawn.files = place.files := rfl
              simp only [run_openWorkshop, hlocate, hfiles]
              cases hopen : FileStore.openAt (place.locate invocation.storeDir) place.files with
              | error cause => exact .inl hfiles
              | ok store => exact .inr ⟨text, workflow, context, store, _, rfl, hdecode, rfl, rfl⟩

/-- A command that runs a definition calls the engine, if it can read what it is given. -/
theorem perform_run {file text user : String} {input : Option String} {given : Option Context}
    {workflow : Workflow} {store : FileStore} (hcommand : invocation.command = .run file input user)
    (htext : place.text? file = some text)
    (hdecode : Json.decodeText (Workflow.decode place.supply.drawId.1.toText) text = .ok workflow)
    (hgiven : Command.Gives input given)
    (hopen : FileStore.openAt (place.locate invocation.storeDir) place.files = .ok store) :
    ∃ progress, (perform invocation).run.run { place } =
      (performCall (workshopOn place.drawn invocation store)
        (.starting ⟨workflow, user, given.getD []⟩)).run.run progress := by
  have hlocate : place.drawn.locate invocation.storeDir = place.locate invocation.storeDir := rfl
  have hfiles : place.drawn.files = place.files := rfl
  have hinput : (readInput input).run.run { place := place.drawn } =
      (.ok (given.getD []), { place := place.drawn }) := by
    cases input with
    | none =>
        cases hgiven
        rfl
    | some raw =>
        obtain ⟨json, context, hread, hobject, rfl⟩ := hgiven
        exact run_readInput_some hread hobject
  unfold perform
  simp only [hcommand, run_bind]
  rw [run_loadWorkflow htext, hdecode]
  simp only [mapError_ok]
  rw [hinput]
  simp only [run_openWorkshop, hlocate, hfiles, hopen]
  exact ⟨_, rfl⟩

/-- A command that resumes an execution calls the engine, if it can read what it is given. -/
theorem perform_resume {file text : String} {id : ExecutionId} {input : Option String}
    {given : Option Context} {workflow : Workflow} {store : FileStore}
    (hcommand : invocation.command = .resume file id input) (htext : place.text? file = some text)
    (hdecode : Json.decodeText (Workflow.decode place.supply.drawId.1.toText) text = .ok workflow)
    (hgiven : Command.Gives input given)
    (hopen : FileStore.openAt (place.locate invocation.storeDir) place.files = .ok store) :
    ∃ progress, (perform invocation).run.run { place } =
      (performCall (workshopOn place.drawn invocation store)
        (.resuming ⟨id, some workflow, given⟩)).run.run progress := by
  have hlocate : place.drawn.locate invocation.storeDir = place.locate invocation.storeDir := rfl
  have hfiles : place.drawn.files = place.files := rfl
  unfold perform
  simp only [hcommand, run_bind]
  rw [run_loadWorkflow htext, hdecode]
  simp only [mapError_ok]
  cases input with
  | none =>
      cases hgiven
      simp only [run_bind, run_pure, run_openWorkshop, hlocate, hfiles, hopen]
      exact ⟨_, rfl⟩
  | some raw =>
      obtain ⟨json, context, hread, hobject, rfl⟩ := hgiven
      simp only [run_bind, run_readInput_some hread hobject, run_pure, run_openWorkshop, hlocate,
        hfiles, hopen]
      exact ⟨_, rfl⟩

end

end CommandStep

end WorkflowEngine
