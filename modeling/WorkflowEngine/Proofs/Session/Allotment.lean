import WorkflowEngine.Proofs.Session.Restart

/-!
# The number of steps an execution is given

When an execution is created, its header is given the number of steps that its definition can take under
the engine's trigger types, and nothing changes that any more: no commit, no resumed run, no failure. The
first save of an execution follows the definition it was created for, on an engine with the same
configuration, so this number is the one of the scope saved first.

This holds in every lawful store, whatever it refuses, and across any number of stops.
-/
namespace WorkflowEngine

/-- The most steps a fresh run can take. -/
def Scope.allotment (scope : Scope) : Nat :=
  scope.workflow.executableCount scope.config.isTrigger

namespace Chronicle

/-- What the first save of an execution followed. -/
def firstScope? (chronicle : Chronicle) : Option Scope :=
  chronicle.findSome? fun
    | .saved scope _ => some scope
    | _ => none

theorem firstScope?_append (chronicle deeds : Chronicle) :
    firstScope? (chronicle ++ deeds) = chronicle.firstScope?.or deeds.firstScope? :=
  List.findSome?_append

theorem firstScope?_kept {chronicle : Chronicle} (deeds : Chronicle)
    (h : chronicle.firstScope? ≠ none) : firstScope? (chronicle ++ deeds) ≠ none := by
  rw [firstScope?_append]
  simp [h]

theorem mem_of_firstScope? {chronicle : Chronicle} {scope : Scope}
    (h : chronicle.firstScope? = some scope) : ∃ input, Deed.saved scope input ∈ chronicle := by
  obtain ⟨deed, hdeed, hscope⟩ := List.exists_of_findSome?_eq_some h
  cases deed with
  | saved saved input =>
      cases hscope
      exact ⟨input, hdeed⟩
  | created | appended | refused => cases hscope

/-- All that a commit adds follows the scope of its run. -/
theorem firstScope?_deeds {commit : Commit} {scope found : Scope} {input : Option Context}
    {outcome : Except StoreError Unit}
    (h : firstScope? (commit.deeds scope input outcome) = some found) : found = scope := by
  obtain ⟨saved, hsaved⟩ := mem_of_firstScope? h
  cases outcome with
  | ok _ =>
      simp only [Commit.deeds] at hsaved
      split at hsaved
      · simp only [List.mem_singleton, Deed.saved.injEq] at hsaved
        exact hsaved.1
      · simp at hsaved
  | error cause => cases cause <;> simp [Commit.deeds] at hsaved

/-- All that a step of a run adds follows its scope. -/
theorem firstScope?_step {run run' : Run} {scope found : Scope} {input : Option Context}
    (h : firstScope? (run.deeds run' scope input) = some found) : found = scope := by
  unfold Run.deeds at h
  split at h
  · exact firstScope?_deeds h
  · cases h

/-- The first save comes with a step of a run only where there was none before. -/
theorem firstScope?_grown {chronicle : Chronicle} {run run' : Run} {scope found : Scope}
    {input : Option Context}
    (h : firstScope? (chronicle ++ run.deeds run' scope input) = some found) :
    chronicle.firstScope? = some found ∨ chronicle.firstScope? = none ∧ found = scope := by
  rw [firstScope?_append] at h
  cases hbefore : chronicle.firstScope? with
  | some saved =>
      rw [hbefore] at h
      exact Or.inl h
  | none =>
      rw [hbefore, Option.none_or] at h
      exact Or.inr ⟨rfl, firstScope?_step h⟩

end Chronicle

/-- A record that has a checkpoint was saved before, and so was one that is found paused. -/
def Chronicle.Begun (chronicle : Chronicle) (execution : StoredExecution) : Prop :=
  (execution.header.status = .paused → execution.log ≠ []) ∧
    (execution.log ≠ [] → chronicle.firstScope? ≠ none)

/-- A run that was resumed, or that has entered, finds its execution saved. -/
def Run.Enters (request : Request) (run : Run) (chronicle : Chronicle) : Prop :=
  (∃ resume, request = .resume resume) ∨ run.stage ≠ .entering → chronicle.firstScope? ≠ none

theorem begun_conduct :
    Conduct Chronicle.Begun (fun request _ run chronicle _ => run.Enters request chronicle)
      fun _ _ _ _ _ => True where
  create := by
    rintro request header ⟨_, _, _, rfl⟩
    exact ⟨nofun, fun hlog => absurd rfl hlog⟩
  start := by
    rintro engine request header cancelled σ host - - (⟨resume, hresume⟩ | hstage)
    · cases hresume
    · exact absurd rfl hstage
  resume := by
    intro engine request workflow cancelled σ host chronicle execution hrest _ hresume _ _
    refine hrest.2 ?_
    obtain hpaused | hfailed := ExecutionState.open_of_canResume hresume
    · exact hrest.1 hpaused
    · intro hlog
      have hempty : execution.state.checkpoints = [] := hlog
      simp [ExecutionState.canResume, hfailed, hempty] at hresume
  attend _ h := h
  skip := fun h hstage _ _ _ => h (Or.inr (by simp [hstage]))
  call := fun _ h _ hstage _ _ _ _ _ _ _ _ _ => h (Or.inr (by simp [hstage]))
  unfold := fun h hstage _ _ _ _ => h (Or.inr (by simp [hstage]))
  commit := by
    rintro request scope run chronicle execution demand time hworks hrest - hready - hdemand commit
      hcommit later rfl
    have hmakes := hdemand.makes hready time hcommit
    have hentered : run.stage ≠ .entering → Chronicle.firstScope? (chronicle ++
        commit.deeds scope request.input? (.ok ())) ≠ none := fun hstage =>
      Chronicle.firstScope?_kept _ (hworks (Or.inr hstage))
    have hsaved : Chronicle.firstScope? (chronicle ++
        commit.deeds scope request.input? (.ok ())) ≠ none := by
      cases hmakes with
      | opening _ happended hstatus =>
          rw [Chronicle.firstScope?_append, Commit.deeds_opening hstatus happended]
          simp [Chronicle.firstScope?]
      | closing hstage => exact hentered (by simp [hstage])
      | failing hfails => exact hentered (by cases hfails <;> simp_all)
      | answering hstage => exact hentered (by simp [hstage])
    refine ⟨⟨?_, fun _ => hsaved⟩, fun _ _ => hsaved, fun _ _ => trivial⟩
    intro hpaused
    change commit.header.status = .paused at hpaused
    cases hmakes with
    | opening _ _ hstatus | closing _ _ _ hstatus =>
        rw [hstatus] at hpaused
        cases hpaused
    | failing _ happended | answering _ _ _ happended => simp [StoredExecution.extend, happended]
  fail := by
    intro chronicle execution header hrest _ _ hstatus _ _
    refine ⟨fun hpaused => ?_, hrest.2⟩
    change header.status = .paused at hpaused
    rw [hstatus] at hpaused
    cases hpaused
  refuse h := ⟨h.1, fun hlog => Chronicle.firstScope?_kept _ (h.2 hlog)⟩

namespace Run

/-- All headers a run has to do with give its execution so many steps. -/
structure Allots (run : Run) (steps : Nat) : Prop where
  own : run.state.header.totalSteps = steps
  commits : ∀ flight, run.handle.flight = some flight → flight.commit.header.totalSteps = steps
  ahead : ∀ cause stored, run.stage = .catchingUp cause stored → stored.totalSteps = steps

variable {σ : Type} [ExecutionStore σ] {scope : Scope} {run run' : Run} {host host' : Host σ}
  {steps : Nat}

theorem Allots.attend (h : run.Allots steps) (cancelled : Bool) :
    Allots { run with cancelled } steps :=
  ⟨h.own, h.commits, h.ahead⟩

omit [ExecutionStore σ] in
theorem Allots.start {state : ExecutionState} (cancelled : Bool) (scope : Scope) (host : Host σ)
    (hsteps : state.header.totalSteps = steps) :
    (Run.start scope state cancelled host).1.Allots steps :=
  ⟨hsteps, by rintro _ ⟨⟩, by rintro _ _ ⟨⟩⟩

theorem Allots.act (h : run.Allots steps) (hlegal : run.Legal)
    (hread : ∀ header, ExecutionStore.loadHeader host.store run.id = .ok (some header) →
      header.totalSteps = steps)
    (hact : run.Act scope host run') : run'.Allots steps := by
  have hnone : ∀ flight, (none : Option Flight) = some flight →
      flight.commit.header.totalSteps = steps := by
    rintro _ ⟨⟩
  cases hact with
  | interrupt | stayBehind | close => exact ⟨h.own, h.commits, by rintro _ _ ⟨⟩⟩
  | @ask demand flight time hdemand hcommit =>
      have hdemanded : demand.state.header.totalSteps = steps := by
        obtain ⟨_, _, _, _, hstate⟩ := hdemand.state_eq
        rw [hstate]
        exact h.own
      refine ⟨hdemanded, ?_, by rintro _ _ ⟨⟩⟩
      rintro other ⟨⟩
      rw [hcommit]
      exact hdemanded
  | skip => exact ⟨h.own, h.commits, h.ahead⟩
  | unfold | call => exact ⟨h.own, h.commits, by rintro _ _ ⟨⟩⟩
  | @settle purpose flight hstage hflight =>
      refine ⟨h.commits flight hflight, hnone, ?_⟩
      cases purpose <;> rintro _ _ ⟨⟩
  | @refuse purpose =>
      refine ⟨h.own, hnone, ?_⟩
      cases purpose <;> rintro _ _ ⟨⟩
  | compare => exact ⟨h.own, hnone, by rintro _ _ ⟨⟩⟩
  | fallBehind hstage hidle hload =>
      refine ⟨h.own, hnone, ?_⟩
      rintro cause stored ⟨⟩
      exact hread _ hload
  | adopt hstage => exact ⟨h.ahead _ _ hstage, h.commits, by rintro _ _ ⟨⟩⟩
  | stray hillegal => exact absurd hlegal hillegal

theorem Allots.land (h : run.Allots steps) (hlands : run.Lands host run' host') :
    run'.Allots steps := by
  obtain ⟨hflight, -, -⟩ := hlands
  rename_i flight
  refine ⟨h.own, ?_, h.ahead⟩
  rintro other ⟨⟩
  exact h.commits flight hflight

/-- A commit that takes effect, or is refused, leaves the record with its number of steps. -/
theorem Allots.landed [LawfulStore σ] (h : run.Allots steps)
    {Works : Request → Scope → Run → Chronicle → StoredExecution → Prop}
    {Done : Request → Scope → ExecutionStatus → Chronicle → StoredExecution → Prop}
    {request : Request} {chronicle : Chronicle} {execution : StoredExecution}
    (hkeeps : run.Keeps Works Done request scope chronicle execution)
    (hstored : LawfulStore.stored host.store run.id = some execution)
    (hsteps : execution.header.totalSteps = steps) (hlands : run.Lands host run' host') :
    ∃ after : StoredExecution,
      LawfulStore.stored host'.store =
        Function.update (LawfulStore.stored host.store) run.id (some after) ∧
      after.header.totalSteps = steps := by
  obtain ⟨hflight, houtcome, hstore⟩ := hlands
  rename_i flight
  rw [hstore]
  cases hresult : (ExecutionStore.commit host.store flight.commit).1 with
  | error cause =>
      refine ⟨execution, ?_, hsteps⟩
      rw [LawfulStore.commit_error hresult, ← hstored, Function.update_eq_self]
  | ok _ =>
      obtain ⟨_, -, -, hcommitted⟩ := LawfulStore.commit_ok hresult
      obtain ⟨_, _, hawaits, -⟩ := hkeeps.flying hflight houtcome
      rw [hawaits.id_eq, LawfulStore.stored_id hstored] at hcommitted
      exact ⟨_, hcommitted, h.commits flight hflight⟩

end Run

theorem Handle.totalSteps_of_create {σ : Type} [ExecutionStore σ] {id : WorkflowId}
    {userId : String} {context : Context} {steps : Nat} {host host' : Host σ} {handle : Handle}
    (h : Handle.create id userId context steps host = (.ok handle, host')) :
    handle.state.header.totalSteps = steps := by
  unfold Handle.create at h
  dsimp only at h
  split at h
  · cases h
    rfl
  · cases h

/-- A step of a call leaves the configuration alone. -/
theorem Call.next?_config {σ : Type} [ExecutionStore σ] {call call' : Call}
    {engine engine' : Engine} {host host' : Host σ}
    (h : call.next? engine host = some (call', engine', host')) :
    engine'.config = engine.config := by
  rcases next?_engine h with ⟨rfl, -⟩ | ⟨id, -, -, hactivate⟩ | ⟨id, -, -, rfl⟩
  · rfl
  · rw [(Engine.activate_cases hactivate).2]
  · rfl

namespace Session

variable {σ : Type} [ExecutionStore σ] [LawfulStore σ] {session later : Session σ}

/-- The number of steps in the record of an execution. -/
def allotted (session : Session σ) (id : ExecutionId) : Nat :=
  ((session.stored id).map (·.header.totalSteps)).getD 0

theorem allotted_of_stored {id : ExecutionId} {execution : StoredExecution}
    (h : session.stored id = some execution) :
    session.allotted id = execution.header.totalSteps := by
  simp [allotted, h]

/-- What a call goes by is the number of steps in the record, which is that of its definition until
something is saved. -/
def Accounts (session : Session σ) (task : Task) : Prop :=
  match task.call with
  | .created request state =>
    session.allotted state.id = session.engine.totalSteps request.workflow
  | .driving scope run =>
    run.Allots (session.allotted run.id) ∧
      (Chronicle.firstScope? (session.chronicles run.id) = none →
        session.allotted run.id = scope.allotment)
  | _ => True

/-- The number of steps in a record is that of the scope saved first. -/
structure Allotted (session : Session σ) : Prop where
  calls : ∀ task ∈ session.tasks, session.Accounts task
  saved : ∀ id scope, Chronicle.firstScope? (session.chronicles id) = some scope →
    session.allotted id = scope.allotment

/-- A call does not notice what happens to executions it does not own. -/
theorem Accounts.frame {task : Task} (h : session.Accounts task)
    (hconfig : later.engine.config = session.engine.config)
    (hsame : ∀ id, task.call.owns? = some id →
      later.stored id = session.stored id ∧ later.chronicles id = session.chronicles id) :
    later.Accounts task := by
  unfold Accounts at h ⊢
  cases hcall : task.call with
  | starting | resuming | loading | loadingLog | ended => trivial
  | created request state =>
      simp only [hcall] at h ⊢
      obtain ⟨hstored, -⟩ := hsame state.id (by rw [hcall]; rfl)
      unfold allotted Engine.totalSteps at h ⊢
      rw [hstored, hconfig]
      exact h
  | driving scope run =>
      simp only [hcall] at h ⊢
      obtain ⟨hstored, hchronicle⟩ := hsame run.id (by rw [hcall]; rfl)
      unfold allotted at h ⊢
      rw [hstored, hchronicle]
      exact h

namespace Allotted

variable {task after : Task} {others : List Task} {engine : Engine} {host : Host σ}

/-- One call changes, and nothing that is stored. -/
private theorem quiet (h : Allotted { session with tasks := task :: others })
    (hconfig : engine.config = session.engine.config)
    (hstored : LawfulStore.stored host.store = session.stored)
    (hafter : Accounts ⟨engine, host, after :: others, session.chronicles⟩ after) :
    Allotted ⟨engine, host, after :: others, session.chronicles⟩ := by
  refine ⟨?_, ?_⟩
  · intro other hother
    rcases List.mem_cons.mp hother with rfl | hother
    · exact hafter
    · exact (h.calls other (List.mem_cons_of_mem _ hother)).frame hconfig fun id _ =>
        ⟨congrFun hstored id, rfl⟩
  · intro id scope hscope
    unfold allotted stored
    rw [hstored]
    exact h.saved id scope hscope

/-- One call changes, and with it one execution that no other call owns. -/
private theorem write {id : ExecutionId} {execution : StoredExecution} {chronicle : Chronicle}
    (h : Allotted { session with tasks := task :: others })
    (hconfig : engine.config = session.engine.config)
    (hstored : LawfulStore.stored host.store =
      Function.update session.stored id (some execution))
    (hothers : ∀ other ∈ others, other.call.owns? ≠ some id)
    (hafter : Accounts ⟨engine, host, after :: others,
      Function.update session.chronicles id chronicle⟩ after)
    (hsaved : ∀ scope, chronicle.firstScope? = some scope →
      execution.header.totalSteps = scope.allotment) :
    Allotted ⟨engine, host, after :: others, Function.update session.chronicles id chronicle⟩ := by
  refine ⟨?_, ?_⟩
  · intro other hother
    rcases List.mem_cons.mp hother with rfl | hrest
    · exact hafter
    · refine (h.calls other (List.mem_cons_of_mem _ hrest)).frame hconfig fun found howns => ?_
      have hne : found ≠ id := by
        rintro rfl
        exact hothers other hrest howns
      refine ⟨?_, Function.update_of_ne hne _ _⟩
      exact (congrFun hstored found).trans (Function.update_of_ne hne _ _)
  · intro found scope hscope
    unfold allotted stored
    simp only [hstored] at hscope ⊢
    by_cases hid : found = id
    · subst hid
      rw [Function.update_self] at hscope ⊢
      exact hsaved scope hscope
    · rw [Function.update_of_ne hid] at hscope ⊢
      exact h.saved found scope hscope

end Allotted

private theorem begun_custody :
    Custody (fun _ : σ => True) (fun chronicle execution => execution.Numbered ∧
      chronicle.Begun execution) fun request scope run chronicle execution =>
      execution.Numbered ∧ chronicle.Begun execution ∧
        run.Keeps (fun request _ run chronicle _ => run.Enters request chronicle)
          (fun _ _ _ _ _ => True) request scope chronicle execution :=
  begun_conduct.custody (fun _ => trivial) fun _ => trivial

/-- Executions in good order, where runs keep that what they resume was saved. -/
def Kept (session : Session σ) : Prop :=
  session.Orderly (fun _ => True)
    (fun chronicle execution => execution.Numbered ∧ chronicle.Begun execution)
    fun request scope run chronicle execution => execution.Numbered ∧ chronicle.Begun execution ∧
      run.Keeps (fun request _ run chronicle _ => run.Enters request chronicle)
        (fun _ _ _ _ _ => True) request scope chronicle execution

namespace Allotted

variable {others : List Task} {asked : Request} {call : Call} {engine : Engine} {host : Host σ}

private theorem starting {request : StartRequest}
    (h : Allotted { session with tasks := ⟨asked, .starting request⟩ :: others })
    (hkept : Kept { session with tasks := ⟨asked, .starting request⟩ :: others })
    (hlater : Kept ⟨engine, host, ⟨asked, call⟩ :: others,
      session.note ⟨asked, .starting request⟩ call⟩)
    (hnext : (Call.starting request).next? session.engine session.host =
      some (call, engine, host)) :
    Allotted ⟨engine, host, ⟨asked, call⟩ :: others,
      session.note ⟨asked, .starting request⟩ call⟩ := by
  simp only [Call.next?] at hnext
  split at hnext
  · cases hnext
    exact h.quiet rfl rfl trivial
  · obtain ⟨header, host', hnew, -, hstore, hrefused, hcreated⟩ := Handle.create_cases request
      (session.engine.totalSteps request.workflow) session.host
    cases hinsert : (ExecutionStore.insert session.host.store header).1 with
    | error cause =>
        simp only [hrefused cause hinsert] at hnext
        cases hnext
        exact h.quiet rfl (hstore ▸ LawfulStore.insert_error hinsert) trivial
    | ok _ =>
        have hsteps := Handle.totalSteps_of_create (hcreated hinsert)
        simp only [hcreated hinsert] at hnext
        cases hnext
        obtain ⟨habsent, hstored⟩ := LawfulStore.insert_ok hinsert
        rw [← hstore] at hstored
        have hnote : session.note ⟨asked, .starting request⟩
            (.created request (.ofRecord ⟨header, []⟩)) =
            Function.update session.chronicles header.id [.created request] := by
          have hempty : session.chronicles header.id = [] := hkept.absent header.id habsent
          have hid : (ExecutionState.ofRecord ⟨header, []⟩).id = header.id := rfl
          simp only [note, Task.deeds, hid, hempty, List.nil_append]
        rw [hnote]
        refine h.write rfl hstored ?_ ?_ (by rintro _ ⟨⟩)
        · exact fun other hother => ((List.pairwise_cons.mp hlater.apart).1 other hother).2 _ rfl
        · have hthere : LawfulStore.stored host.store header.id = some ⟨header, []⟩ :=
            (congrFun hstored _).trans (Function.update_self ..)
          exact Eq.trans (allotted_of_stored hthere) hsteps

private theorem created {request : StartRequest} {state : ExecutionState}
    (h : Allotted { session with tasks := ⟨asked, .created request state⟩ :: others })
    (hkept : Kept { session with tasks := ⟨asked, .created request state⟩ :: others })
    (hnext : (Call.created request state).next? session.engine session.host =
      some (call, engine, host)) :
    Allotted ⟨engine, host, ⟨asked, call⟩ :: others,
      session.note ⟨asked, .created request state⟩ call⟩ := by
  have hsteps : session.allotted state.id = session.engine.totalSteps request.workflow :=
    h.calls _ List.mem_cons_self
  obtain ⟨-, -, header, -, rfl, hstored, -⟩ := hkept.fits _ List.mem_cons_self
  simp only [Call.next?] at hnext
  cases hactivate : session.engine.activate (ExecutionState.ofRecord ⟨header, []⟩).id with
  | error cause =>
      rw [hactivate] at hnext
      cases hnext
      exact h.quiet rfl rfl trivial
  | ok activated =>
      rw [hactivate] at hnext
      cases hnext
      have hconfig : engine.config = session.engine.config := by
        rw [(Engine.activate_cases hactivate).2]
      refine h.quiet hconfig rfl ⟨.start _ _ _ ?_, fun _ => ?_⟩
      · exact (allotted_of_stored hstored).symm
      · refine hsteps.trans ?_
        unfold Scope.allotment Engine.totalSteps
        rw [← hconfig]
        rfl

private theorem loadingLog {request : ResumeRequest} {header : ExecutionHeader}
    (h : Allotted { session with tasks := ⟨asked, .loadingLog request header⟩ :: others })
    (hkept : Kept { session with tasks := ⟨asked, .loadingLog request header⟩ :: others })
    (hlater : Kept ⟨engine, host, ⟨asked, call⟩ :: others,
      session.note ⟨asked, .loadingLog request header⟩ call⟩)
    (hnext : (Call.loadingLog request header).next? session.engine session.host =
      some (call, engine, host)) :
    Allotted ⟨engine, host, ⟨asked, call⟩ :: others,
      session.note ⟨asked, .loadingLog request header⟩ call⟩ := by
  obtain ⟨hrequest, execution, hstored, rfl⟩ := hkept.fits _ List.mem_cons_self
  have hconfig : engine.config = session.engine.config := Call.next?_config hnext
  obtain ⟨hstore, ⟨outcome, rfl⟩ | ⟨log, workflow, state, cancelled, hprepare, rfl⟩⟩ :=
    Call.loadingLog_cases hnext
  · exact h.quiet hconfig (congrArg _ hstore) trivial
  · have hstate : state.header.totalSteps = execution.header.totalSteps ∧
        state.id = execution.header.id := by
      obtain ⟨-, -, -, rfl⟩ := Call.prepareResume_cases hprepare
      cases request.input <;> exact ⟨rfl, rfl⟩
    have hid : state.id = request.id := hstate.2.trans (LawfulStore.stored_id hstored)
    obtain ⟨-, _, -, -, -, hkeeps⟩ := hlater.fits _ List.mem_cons_self
    have henters : Run.Enters asked (Run.start (Call.scopeOf engine workflow) state cancelled
        session.host).1 (session.chronicles state.id) := hkeeps.2
    refine h.quiet hconfig (congrArg _ hstore) ⟨.start _ _ _ ?_, fun hnothing => ?_⟩
    · refine hstate.1.trans (allotted_of_stored ?_).symm
      change LawfulStore.stored host.store state.id = some execution
      rw [hstore, hid]
      exact hstored
    · exact absurd hnothing (henters (Or.inl ⟨request, hrequest⟩))

section

variable {scope : Scope} {run run' : Run} {execution : StoredExecution} {cancelled : Bool}

/-- The commit of a run takes effect, or is refused. -/
private theorem landed (h : Allotted { session with tasks := ⟨asked, .driving scope run⟩ :: others })
    (hconfig : engine.config = session.engine.config)
    (hstored : session.stored run.id = some execution)
    {Works : Request → Scope → Run → Chronicle → StoredExecution → Prop}
    {Done : Request → Scope → ExecutionStatus → Chronicle → StoredExecution → Prop}
    (hkeeps : Run.Keeps Works Done asked scope { run with cancelled } (session.chronicles run.id)
      execution)
    (hothers : ∀ other ∈ others, other.call.owns? ≠ some run.id)
    (hlands : Run.Lands { run with cancelled } session.host run' host) :
    Allotted ⟨engine, host, ⟨asked, .driving scope run'⟩ :: others,
      session.note ⟨asked, .driving scope run⟩ (.driving scope run')⟩ := by
  obtain ⟨hallots, hfirst⟩ : run.Allots (session.allotted run.id) ∧
      (Chronicle.firstScope? (session.chronicles run.id) = none →
        session.allotted run.id = scope.allotment) := h.calls _ List.mem_cons_self
  have hattends := hallots.attend cancelled
  obtain ⟨after, hafter, hsame⟩ := hattends.landed hkeeps hstored (allotted_of_stored hstored).symm
    hlands
  have hid : run'.id = run.id := by
    cases hlands
    rfl
  have hnow : allotted ⟨engine, host, ⟨asked, .driving scope run'⟩ :: others,
      session.note ⟨asked, .driving scope run⟩ (.driving scope run')⟩ run'.id =
      session.allotted run.id := by
    have hthere : LawfulStore.stored host.store run'.id = some after := by
      rw [hid]
      exact (congrFun hafter _).trans (Function.update_self ..)
    exact Eq.trans (allotted_of_stored hthere) hsame
  refine h.write hconfig hafter hothers ⟨hnow ▸ hattends.land hlands, fun hnothing => ?_⟩
    fun found hfound => ?_
  · have hbefore : Chronicle.firstScope? (session.chronicles run.id ++
        run.deeds run' scope asked.input?) = none := by
      refine Eq.trans ?_ hnothing
      rw [hid]
      exact congrArg Chronicle.firstScope? (Function.update_self run.id _ session.chronicles).symm
    rw [Chronicle.firstScope?_append, Option.or_eq_none_iff] at hbefore
    exact hnow.trans (hfirst hbefore.1)
  · rw [hsame]
    obtain hbefore | ⟨hnothing, rfl⟩ := Chronicle.firstScope?_grown hfound
    · exact h.saved run.id found hbefore
    · exact hfirst hnothing

/-- A run goes on by itself. -/
private theorem acted (h : Allotted { session with tasks := ⟨asked, .driving scope run⟩ :: others })
    (hconfig : engine.config = session.engine.config)
    (hstored : session.stored run.id = some execution)
    (hlegal : Run.Legal { run with cancelled }) (hid : run'.id = run.id)
    (hstore : host.store = session.host.store)
    (hact : Run.Act scope { run with cancelled } session.host run') :
    Allotted ⟨engine, host, ⟨asked, .driving scope run'⟩ :: others,
      session.note ⟨asked, .driving scope run⟩ (.driving scope run')⟩ := by
  obtain ⟨hallots, hfirst⟩ : run.Allots (session.allotted run.id) ∧
      (Chronicle.firstScope? (session.chronicles run.id) = none →
        session.allotted run.id = scope.allotment) := h.calls _ List.mem_cons_self
  have hnote : session.note ⟨asked, .driving scope run⟩ (.driving scope run') =
      session.chronicles := by
    have hdeeds : run.deeds run' scope asked.input? = [] := hact.deeds hlegal scope asked.input?
    simp only [note, Task.deeds, hdeeds, List.append_nil, Function.update_eq_self]
  have hnow : allotted ⟨engine, host, ⟨asked, .driving scope run'⟩ :: others,
      session.chronicles⟩ run'.id = session.allotted run.id := by
    rw [hid]
    unfold allotted stored
    rw [hstore]
  rw [hnote]
  refine h.quiet hconfig (congrArg _ hstore) ?_
  change run'.Allots _ ∧ (Chronicle.firstScope? (session.chronicles run'.id) = none → _)
  rw [hnow, hid]
  refine ⟨(hallots.attend cancelled).act hlegal ?_ hact, hfirst⟩
  intro header hload
  have hthere : LawfulStore.stored session.host.store run.id = some execution := hstored
  have hfound : some header = (LawfulStore.stored session.host.store run.id).map (·.header) :=
    LawfulStore.loadHeader_ok hload
  rw [hthere] at hfound
  cases hfound
  exact (allotted_of_stored hstored).symm

private theorem driving (h : Allotted { session with tasks := ⟨asked, .driving scope run⟩ :: others })
    (hkept : Kept { session with tasks := ⟨asked, .driving scope run⟩ :: others })
    (hlater : Kept ⟨engine, host, ⟨asked, call⟩ :: others,
      session.note ⟨asked, .driving scope run⟩ call⟩)
    (hnext : (Call.driving scope run).next? session.engine session.host =
      some (call, engine, host)) :
    Allotted ⟨engine, host, ⟨asked, call⟩ :: others,
      session.note ⟨asked, .driving scope run⟩ call⟩ := by
  have hconfig : engine.config = session.engine.config := Call.next?_config hnext
  obtain ⟨hstarted, execution, hstored, hinHand⟩ := hkept.fits _ List.mem_cons_self
  obtain ⟨rfl, result, rfl⟩ | ⟨run', cancelled, rfl, hmoves⟩ := Call.driving_cases hnext
  · exact h.quiet hconfig rfl trivial
  · have hattends := (begun_custody (σ := σ)).attend cancelled hinHand
    obtain hlands | ⟨hstore, hact⟩ := hmoves
    · refine h.landed hconfig hstored hattends.2.2 (fun other hother => ?_) hlands
      have hid : run'.id = run.id := by
        cases hlands
        rfl
      rw [← hid]
      exact ((List.pairwise_cons.mp hlater.apart).1 other hother).2 _ rfl
    · have hid : run'.id = run.id := (begun_custody.act hattends trivial hstarted hstored hact).1
      exact h.acted hconfig hstored hattends.2.2.legal hid hstore hact

end

private theorem advance {task : Task}
    (h : Allotted { session with tasks := task :: others })
    (hkept : Kept { session with tasks := task :: others })
    (hlater : Kept ⟨engine, host, ⟨task.request, call⟩ :: others, session.note task call⟩)
    (hnext : task.call.next? session.engine session.host = some (call, engine, host)) :
    Allotted ⟨engine, host, ⟨task.request, call⟩ :: others, session.note task call⟩ := by
  obtain ⟨asked, standing⟩ := task
  have hconfig : engine.config = session.engine.config := Call.next?_config hnext
  cases standing with
  | starting request => exact h.starting hkept hlater hnext
  | created request state => exact h.created hkept hnext
  | resuming request =>
      simp only [Call.next?] at hnext
      split at hnext <;> cases hnext <;> exact h.quiet hconfig rfl trivial
  | loading request =>
      simp only [Call.next?] at hnext
      split at hnext <;> cases hnext <;> exact h.quiet hconfig rfl trivial
  | loadingLog request header => exact h.loadingLog hkept hlater hnext
  | driving scope run => exact h.driving hkept hlater hnext
  | ended outcome => cases hnext

/-- Calls come and go, and what they have to do with the engine. -/
private theorem around {tasks : List Task} (h : session.Allotted)
    (hstore : host.store = session.host.store)
    (htasks : ∀ task ∈ tasks, task ∈ session.tasks ∧ engine.config = session.engine.config) :
    Allotted { session with engine, host, tasks } := by
  have hstored : ∀ id, stored { session with engine, host, tasks } id = session.stored id :=
    fun id => congrArg (LawfulStore.stored · id) hstore
  refine ⟨fun task htask => ?_, fun id scope hscope => ?_⟩
  · obtain ⟨hold, hconfig⟩ := htasks task htask
    exact (h.calls task hold).frame hconfig fun id _ => ⟨hstored id, rfl⟩
  · unfold allotted
    rw [hstored]
    exact h.saved id scope hscope

theorem step (h : session.Allotted) (hkept : session.Kept) (hstep : session.Step later) :
    later.Allotted := by
  have hlater : later.Kept := Orderly.step begun_custody hkept hstep
  cases hstep with
  | ask request =>
      refine ⟨fun task htask => ?_, h.saved⟩
      rcases List.mem_cons.mp htask with rfl | hold
      · cases request <;> trivial
      · exact (h.calls task hold).frame rfl fun _ _ => ⟨rfl, rfl⟩
  | @advance task others call engine host htasks hnext =>
      have hperm : Allotted { session with tasks := task :: others } :=
        h.around rfl fun other hother => ⟨htasks.mem_iff.mpr hother, rfl⟩
      exact hperm.advance (Orderly.perm hkept htasks) hlater hnext
  | wait time => exact h.around (Host.waitUntil_store _ _) fun _ htask => ⟨htask, rfl⟩
  | cancel id | remove id => exact h.around rfl fun _ htask => ⟨htask, rfl⟩
  | register hengine =>
      exact h.around rfl fun _ htask => ⟨htask, (Engine.register_cases hengine).1⟩
  | replace engine hover =>
      refine ⟨fun task htask => ?_, h.saved⟩
      obtain ⟨outcome, hcall⟩ := hover task htask
      unfold Accounts
      rw [hcall]
      trivial

end Allotted

private theorem Survives.kept {Kind : σ → Prop} (h : Survives Kind session) : session.Kept :=
  Survives.orderly begun_custody (fun hinHand => ⟨hinHand.1, hinHand.2.1⟩)
    (h.mono fun _ _ => trivial)

theorem Survives.allotted {Kind : σ → Prop} (h : Survives Kind session) : session.Allotted := by
  induction h with
  | initial =>
      refine ⟨?_, ?_⟩
      · intro task htask
        cases htask
      · intro id scope hscope
        cases hscope
  | step h hstep ih => exact ih.step h.kept hstep
  | drop h htasks ih =>
      refine ih.around rfl fun other hother =>
        ⟨htasks.mem_iff.mpr (List.mem_cons_of_mem _ hother), ?_⟩
      cases Call.holds? _ <;> rfl
  | restart h hidle hstore ih =>
      refine ih.around hstore fun task htask => ?_
      cases htask

/-- At any time, also after any number of stops: an execution that has a checkpoint has the number of
steps of a scope that it followed. -/
theorem Survives.totalSteps {Kind : σ → Prop} (h : Survives Kind session) {id : ExecutionId}
    {execution : StoredExecution} (hstored : session.stored id = some execution)
    (hlog : execution.log ≠ []) :
    ∃ scope input, Deed.saved scope input ∈ session.chronicles id ∧
      execution.header.totalSteps = scope.allotment := by
  have hbegun : Chronicle.Begun (session.chronicles id) execution := by
    obtain ⟨-, hrest⟩ | ⟨_, -, _, _, -, -, hrest, -⟩ := Orderly.kept h.kept hstored
    · exact hrest
    · exact hrest
  obtain ⟨scope, hscope⟩ := Option.ne_none_iff_exists'.mp (hbegun.2 hlog)
  obtain ⟨input, hsaved⟩ := Chronicle.mem_of_firstScope? hscope
  exact ⟨scope, input, hsaved,
    (allotted_of_stored hstored).symm.trans (h.allotted.saved id scope hscope)⟩

end Session

end WorkflowEngine
