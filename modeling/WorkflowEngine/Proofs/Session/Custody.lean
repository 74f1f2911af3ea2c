import WorkflowEngine.Proofs.Engine.Active

/-!
Every stored execution is either at rest or in the hands of exactly one run. Whatever a run keeps
between its execution and its chronicle, from the moment it is handed over until it is put to rest,
therefore holds in every reachable session, however its calls are interleaved.

What is kept is a parameter here: a `Custody` lists what has to be shown of it for single runs.
-/
namespace WorkflowEngine

namespace Engine

variable {engine later : Engine}

/-- Whether a definition is fit to be run is a matter of the configuration only. -/
theorem accept_congr (h : later.config = engine.config) (workflow : Workflow) :
    later.accept workflow = engine.accept workflow := by
  unfold accept
  rw [h]

end Engine

/-- What can be resumed was left paused or failed. -/
theorem ExecutionState.open_of_canResume {state : ExecutionState} (h : state.canResume = true) :
    state.status = .paused ∨ state.status = .failed := by
  unfold canResume at h
  cases hstatus : state.status <;> simp_all only [reduceCtorEq, Bool.false_eq_true, or_true, true_or]

/-- What can be resumed can be running again. -/
theorem ExecutionState.canBecome_of_canResume {state : ExecutionState}
    (h : state.canResume = true) : state.status.canBecome .running = true := by
  unfold canResume at h
  cases hstatus : state.status <;> simp only [hstatus, Bool.false_eq_true] at h <;> rfl

/-- Who may resume which state, and with what the run begins. -/
theorem Call.prepareResume_cases {engine : Engine} {request : ResumeRequest}
    {state state' : ExecutionState} {workflow : Workflow}
    (h : prepareResume engine request state = .ok (workflow, state')) :
    state.canResume = true ∧ workflow.id = state.header.workflowId ∧
      engine.accept workflow = .ok () ∧ state' = request.input.elim state state.updateContext := by
  unfold prepareResume at h
  cases hresume : state.canResume with
  | false => simp [hresume, bind, Except.bind, throw, throwThe, MonadExceptOf.throw] at h
  | true =>
      cases hworkflow : resumedWorkflow engine request state with
      | error cause =>
          simp [hresume, hworkflow, bind, Except.bind] at h
      | ok found =>
          have hfound : found.id = state.header.workflowId ∧ engine.accept found = .ok () := by
            unfold resumedWorkflow at hworkflow
            cases hchoice : (request.workflow <|> engine.workflow? state.header.workflowId) with
            | none =>
                simp [hchoice, bind, Except.bind, throw, throwThe,
                  MonadExceptOf.throw] at hworkflow
            | some chosen =>
                by_cases hid : chosen.id = state.header.workflowId
                · cases haccept : engine.accept chosen with
                  | error cause =>
                      simp [hchoice, hid, haccept, bind, Except.bind, pure,
                        Except.pure] at hworkflow
                  | ok _ =>
                      simp [hchoice, hid, haccept, bind, Except.bind, pure,
                        Except.pure] at hworkflow
                      exact hworkflow ▸ ⟨hid, haccept⟩
                · simp [hchoice, hid, bind, Except.bind, pure, Except.pure, throw, throwThe,
                    MonadExceptOf.throw] at hworkflow
          cases hinput : request.input with
          | none =>
              simp [hresume, hworkflow, hinput, bind, Except.bind, pure, Except.pure] at h
              obtain ⟨rfl, rfl⟩ := h
              exact ⟨rfl, hfound.1, hfound.2, rfl⟩
          | some input =>
              simp [hresume, hworkflow, hinput, bind, Except.bind, pure, Except.pure] at h
              obtain ⟨rfl, rfl⟩ := h
              exact ⟨rfl, hfound.1, hfound.2, rfl⟩

/-- Only a run that is over has a result, and telling it changes nothing on the host. -/
theorem Call.returned {σ : Type} [ExecutionStore σ] {call : Call} {engine engine' : Engine}
    {host host' : Host σ} {result : RunResult}
    (h : call.next? engine host = some (.ended (.ok result), engine', host')) :
    host' = host ∧ ∃ scope run outcome, call = .driving scope run ∧
      run.stage = .finished outcome ∧ result = .ofRun run outcome := by
  unfold next? at h
  cases call with
  | starting request =>
      simp only at h
      split at h
      · cases h
      · split at h <;> cases h
  | created request state =>
      simp only at h
      split at h <;> cases h
  | resuming request =>
      simp only at h
      split at h <;> cases h
  | loading request =>
      simp only at h
      split at h <;> cases h
  | loadingLog request header =>
      simp only at h
      split at h
      · cases h
      · split at h <;> cases h
  | ended outcome => cases h
  | driving scope run =>
      simp only at h
      split at h
      · rename_i outcome hresult
        cases h
        refine ⟨rfl, scope, run, outcome, rfl, ?_, ?_⟩
        · unfold Run.result? at hresult
          cases hstage : run.stage with
          | finished other =>
              simp only [hstage, Option.some.injEq] at hresult
              rw [hresult]
          | _ => simp [hstage] at hresult
        · cases outcome <;> rfl
      · rw [Option.map_eq_some_iff] at h
        obtain ⟨_, -, hnext⟩ := h
        cases hnext

private theorem Host.store_at {σ : Type} (host : Host σ) (now : Nat) (supply : Supply) :
    ({ host with now, supply } : Host σ).store = host.store := rfl

/-- The header of an execution that was just created. -/
def ExecutionHeader.IsNew (request : StartRequest) (header : ExecutionHeader) : Prop :=
  ∃ id steps time, header = ExecutionState.newHeader id request.workflow.id request.userId
    request.context steps time

/-- The execution whose record a call relies on. -/
def Call.reads? : Call → Option ExecutionId
  | .created _ state => some state.id
  | .loadingLog request _ => some request.id
  | .driving _ run => some run.id
  | _ => none

/-- No two calls took on one execution, and no two may write it. -/
def Task.Apart (task other : Task) : Prop :=
  (∀ id, task.call.holds? = some id → other.call.holds? ≠ some id) ∧
    ∀ id, task.call.owns? = some id → other.call.owns? ≠ some id

theorem Task.Apart.symm {task other : Task} (h : task.Apart other) : other.Apart task :=
  ⟨fun id hother htask => h.1 id htask hother, fun id hother htask => h.2 id htask hother⟩

/-- Creating an execution puts a new header into the store, unless that is refused. -/
theorem Handle.create_cases {σ : Type} [ExecutionStore σ] (request : StartRequest)
    (steps : Nat) (host : Host σ) :
    ∃ (header : ExecutionHeader) (host' : Host σ), header.IsNew request ∧ host'.now = host.now ∧
      host'.store = (ExecutionStore.insert host.store header).2 ∧
      (∀ cause, (ExecutionStore.insert host.store header).1 = .error cause →
        Handle.create request.workflow.id request.userId request.context steps host =
          (.error (.store cause), host')) ∧
      ((ExecutionStore.insert host.store header).1 = .ok () →
        Handle.create request.workflow.id request.userId request.context steps host =
          (.ok { state := .ofRecord ⟨header, []⟩ }, host')) := by
  refine ⟨ExecutionState.newHeader host.stamp.2.drawId.1 request.workflow.id request.userId
    request.context steps host.stamp.1,
    { host.stamp.2.drawId.2 with store := (ExecutionStore.insert host.stamp.2.drawId.2.store _).2 },
    ⟨_, _, _, rfl⟩, rfl, rfl, ?_, ?_⟩
  · intro cause hinsert
    unfold Handle.create
    simp only [Host.stamp, Host.drawId] at hinsert ⊢
    rw [hinsert]
  · intro hinsert
    unfold Handle.create
    simp only [Host.stamp, Host.drawId] at hinsert ⊢
    rw [hinsert]

variable {σ : Type} [ExecutionStore σ] [LawfulStore σ]

/-- What runs keep of an execution, `AtRest` between two runs and `InHand` while one has it, in all
stores of some kind. -/
structure Custody (Kind : σ → Prop) (AtRest : Chronicle → StoredExecution → Prop)
    (InHand : Request → Scope → Run → Chronicle → StoredExecution → Prop) : Prop where
  kind_insert : ∀ {store header}, Kind store → Kind (ExecutionStore.insert store header).2
  kind_commit : ∀ {store commit}, Kind store → Kind (ExecutionStore.commit store commit).2
  create : ∀ {request header}, header.IsNew request → AtRest [.created request] ⟨header, []⟩
  start : ∀ {engine : Engine} {request header cancelled} {host : Host σ},
    engine.accept request.workflow = .ok () → header.IsNew request →
      InHand (.start request) (Call.scopeOf engine request.workflow)
        (Run.start (Call.scopeOf engine request.workflow) (.ofRecord ⟨header, []⟩) cancelled
          host).1 [.created request] ⟨header, []⟩
  resume : ∀ {engine : Engine} {request workflow state cancelled} {host : Host σ} {chronicle}
      {execution : StoredExecution},
    AtRest chronicle execution →
      Call.prepareResume engine request
        (.ofRecord (ExecutionStore.assemble execution.header execution.log)) =
          .ok (workflow, state) →
      InHand (.resume request) (Call.scopeOf engine workflow)
        (Run.start (Call.scopeOf engine workflow) state cancelled host).1 chronicle execution
  attend : ∀ {request scope run chronicle execution} (cancelled : Bool),
    InHand request scope run chronicle execution →
      InHand request scope { run with cancelled } chronicle execution
  legal : ∀ {request scope run chronicle execution},
    InHand request scope run chronicle execution → run.Legal
  act : ∀ {request scope run run'} {host : Host σ} {chronicle execution},
    InHand request scope run chronicle execution → Kind host.store → run.startedAt ≤ host.now →
      LawfulStore.stored host.store run.id = some execution → run.Act scope host run' →
      run'.id = run.id ∧ InHand request scope run' chronicle execution
  land : ∀ {request scope run run'} {host host' : Host σ} {chronicle execution},
    InHand request scope run chronicle execution → Kind host.store →
      LawfulStore.stored host.store run.id = some execution → run.Lands host run' host' →
      run'.id = run.id ∧ ∃ after,
        LawfulStore.stored host'.store =
          Function.update (LawfulStore.stored host.store) run.id (some after) ∧
        InHand request scope run' (chronicle ++ run.deeds run' scope request.input?) after
  finish : ∀ {request scope run chronicle execution result},
    InHand request scope run chronicle execution → run.result? = some result →
      AtRest chronicle execution

/-- Something more that runs keep while they have an execution, from where they begin. -/
theorem Custody.also {Kind : σ → Prop} {AtRest : Chronicle → StoredExecution → Prop}
    {InHand : Request → Scope → Run → Chronicle → StoredExecution → Prop}
    (custody : Custody Kind AtRest InHand)
    (Also : Request → Scope → Run → StoredExecution → Prop)
    (enter : ∀ {request scope run execution}, run.stage = .entering → run.handle.flight = none →
      Also request scope run execution)
    (attend : ∀ {request scope run execution} (cancelled : Bool),
      Also request scope run execution → Also request scope { run with cancelled } execution)
    (act : ∀ {request scope run run'} {host : Host σ} {chronicle execution},
      InHand request scope run chronicle execution → Also request scope run execution →
        Kind host.store → LawfulStore.stored host.store run.id = some execution →
        run.Act scope host run' → Also request scope run' execution)
    (land : ∀ {request scope run run'} {host host' : Host σ} {chronicle execution after},
      InHand request scope run chronicle execution → Also request scope run execution →
        Kind host.store → LawfulStore.stored host.store run.id = some execution →
        run.Lands host run' host' → LawfulStore.stored host'.store run.id = some after →
        Also request scope run' after) :
    Custody Kind AtRest fun request scope run chronicle execution =>
      InHand request scope run chronicle execution ∧ Also request scope run execution where
  kind_insert := custody.kind_insert
  kind_commit := custody.kind_commit
  create := custody.create
  start haccept hnew := ⟨custody.start haccept hnew, enter rfl rfl⟩
  resume hrest hprepare := ⟨custody.resume hrest hprepare, enter rfl rfl⟩
  attend cancelled h := ⟨custody.attend cancelled h.1, attend cancelled h.2⟩
  legal h := custody.legal h.1
  act h hkind hstarted hstored hact := by
    obtain ⟨hid, hinHand⟩ := custody.act h.1 hkind hstarted hstored hact
    exact ⟨hid, hinHand, act h.1 h.2 hkind hstored hact⟩
  land h hkind hstored hlands := by
    obtain ⟨hid, after, hafter, hinHand⟩ := custody.land h.1 hkind hstored hlands
    have hfound := (congrFun hafter _).trans (Function.update_self ..)
    exact ⟨hid, after, hafter, hinHand, land h.1 h.2 hkind hstored hlands hfound⟩
  finish h := custody.finish h.1

namespace Session

variable {Kind : σ → Prop} {AtRest : Chronicle → StoredExecution → Prop}
  {InHand : Request → Scope → Run → Chronicle → StoredExecution → Prop}

/-- A call is where its request can have brought it, and what it relies on is so. -/
def Fits (InHand : Request → Scope → Run → Chronicle → StoredExecution → Prop)
    (session : Session σ) (task : Task) : Prop :=
  match task.call with
  | .starting request => task.request = .start request
  | .created request state =>
    task.request = .start request ∧ session.engine.accept request.workflow = .ok () ∧
      ∃ header : ExecutionHeader, header.IsNew request ∧ state = .ofRecord ⟨header, []⟩ ∧
        session.stored header.id = some ⟨header, []⟩ ∧
        session.chronicles header.id = [.created request]
  | .resuming request => task.request = .resume request
  | .loading request => task.request = .resume request
  | .loadingLog request header =>
    task.request = .resume request ∧
      ∃ execution, session.stored request.id = some execution ∧ execution.header = header
  | .driving scope run =>
    run.startedAt ≤ session.host.now ∧ ∃ execution, session.stored run.id = some execution ∧
      InHand task.request scope run (session.chronicles run.id) execution
  | .ended _ => True

structure Orderly (Kind : σ → Prop) (AtRest : Chronicle → StoredExecution → Prop)
    (InHand : Request → Scope → Run → Chronicle → StoredExecution → Prop)
    (session : Session σ) : Prop where
  kind : Kind session.host.store
  fits : ∀ task ∈ session.tasks, session.Fits InHand task
  active : ∀ task ∈ session.tasks, ∀ id,
    task.call.holds? = some id → session.engine.isActive id = true
  apart : session.tasks.Pairwise Task.Apart
  rest : ∀ id execution, session.stored id = some execution →
    (∀ task ∈ session.tasks, task.call.running? ≠ some id) →
      AtRest (session.chronicles id) execution
  absent : ∀ id, session.stored id = none → session.chronicles id = []

/-- A call does not notice what happens to executions it does not rely on. -/
theorem Fits.frame {session later : Session σ} {task : Task} (h : session.Fits InHand task)
    (hconfig : later.engine.config = session.engine.config)
    (hnow : session.host.now ≤ later.host.now)
    (hsame : ∀ id, task.call.reads? = some id →
      later.stored id = session.stored id ∧ later.chronicles id = session.chronicles id) :
    later.Fits InHand task := by
  unfold Fits at h ⊢
  cases hcall : task.call with
  | starting | resuming | loading | ended =>
      simp only [hcall] at h ⊢
      try exact h
  | created request state =>
      simp only [hcall] at h ⊢
      obtain ⟨hrequest, haccept, header, hnew, rfl, hstored, hchronicle⟩ := h
      obtain ⟨hstored', hchronicle'⟩ := hsame header.id (by rw [hcall]; rfl)
      refine ⟨hrequest, ?_, header, hnew, rfl, ?_, ?_⟩
      · rw [Engine.accept_congr hconfig, haccept]
      · rw [hstored', hstored]
      · rw [hchronicle', hchronicle]
  | loadingLog request header =>
      simp only [hcall] at h ⊢
      obtain ⟨hrequest, execution, hstored, hheader⟩ := h
      obtain ⟨hstored', -⟩ := hsame request.id (by rw [hcall]; rfl)
      exact ⟨hrequest, execution, hstored'.trans hstored, hheader⟩
  | driving scope run =>
      simp only [hcall] at h ⊢
      obtain ⟨hstarted, execution, hstored, hinHand⟩ := h
      obtain ⟨hstored', hchronicle'⟩ := hsame run.id (by rw [hcall]; rfl)
      refine ⟨Nat.le_trans hstarted hnow, execution, hstored'.trans hstored, ?_⟩
      rw [hchronicle']
      exact hinHand

/-- A call relies only on what is stored. -/
theorem Fits.stored_of_reads {session : Session σ} {task : Task} {id : ExecutionId}
    (h : session.Fits InHand task) (hreads : task.call.reads? = some id) :
    ∃ execution, session.stored id = some execution := by
  unfold Fits at h
  cases hcall : task.call with
  | starting | resuming | loading | ended => simp [hcall, Call.reads?] at hreads
  | created request state =>
      simp only [hcall] at h hreads
      obtain ⟨-, -, header, -, rfl, hstored, -⟩ := h
      cases hreads
      exact ⟨_, hstored⟩
  | loadingLog request header =>
      simp only [hcall] at h hreads
      obtain ⟨-, execution, hstored, -⟩ := h
      cases hreads
      exact ⟨_, hstored⟩
  | driving scope run =>
      simp only [hcall] at h hreads
      obtain ⟨-, execution, hstored, -⟩ := h
      cases hreads
      exact ⟨_, hstored⟩

private theorem reads_of_owns {call : Call} {id : ExecutionId} (h : call.owns? = some id) :
    call.reads? = some id := by
  cases call <;> first | exact h | cases h

private theorem holds_or_owns_of_reads {call : Call} {id : ExecutionId}
    (h : call.reads? = some id) : call.holds? = some id ∨ call.owns? = some id := by
  cases call <;> first | exact Or.inl h | exact Or.inr h

theorem holds_of_running {call : Call} {id : ExecutionId} (h : call.running? = some id) :
    call.holds? = some id := by
  cases call <;> first | exact h | cases h

namespace Orderly

/-- The order of the calls does not matter. -/
theorem perm {session : Session σ} {tasks : List Task} (h : session.Orderly Kind AtRest InHand)
    (hperm : session.tasks.Perm tasks) :
    Orderly Kind AtRest InHand { session with tasks } where
  kind := h.kind
  fits task htask := h.fits task (hperm.mem_iff.mpr htask)
  active task htask := h.active task (hperm.mem_iff.mpr htask)
  apart := (hperm.pairwise_iff Task.Apart.symm).mp h.apart
  rest id execution hstored hfree :=
    h.rest id execution hstored fun task htask => hfree task (hperm.mem_iff.mp htask)
  absent := h.absent

variable {session : Session σ} {task after : Task} {others : List Task} {engine : Engine}
  {host : Host σ} {chronicles : ExecutionId → Chronicle}

/-- One call changes, and with it what no other call relies on. -/
theorem change (h : Orderly Kind AtRest InHand { session with tasks := task :: others })
    (hkind : Kind host.store) (hconfig : engine.config = session.engine.config)
    (hnow : session.host.now ≤ host.now)
    (hsame : ∀ other ∈ others, ∀ id, other.call.reads? = some id →
      LawfulStore.stored host.store id = session.stored id ∧
        chronicles id = session.chronicles id)
    (hfits : Fits InHand ⟨engine, host, after :: others, chronicles⟩ after)
    (hactive : ∀ id, after.call.holds? = some id → engine.isActive id = true)
    (hkept : ∀ id, session.engine.isActive id = true → task.call.holds? ≠ some id →
      engine.isActive id = true)
    (hapart : ∀ other ∈ others, after.Apart other)
    (hrest : ∀ id execution, LawfulStore.stored host.store id = some execution →
      after.call.running? ≠ some id → (∀ other ∈ others, other.call.running? ≠ some id) →
        AtRest (chronicles id) execution)
    (habsent : ∀ id, LawfulStore.stored host.store id = none → chronicles id = []) :
    Orderly Kind AtRest InHand ⟨engine, host, after :: others, chronicles⟩ where
  kind := hkind
  fits other hother := by
    rcases List.mem_cons.mp hother with rfl | hother
    · exact hfits
    · exact (h.fits other (List.mem_cons_of_mem _ hother)).frame hconfig hnow (hsame other hother)
  active other hother id hholds := by
    rcases List.mem_cons.mp hother with rfl | hother
    · exact hactive id hholds
    · refine hkept id (h.active other (List.mem_cons_of_mem _ hother) id hholds) ?_
      intro htask
      exact ((List.pairwise_cons.mp h.apart).1 other hother).1 id htask hholds
  apart := List.pairwise_cons.mpr ⟨hapart, (List.pairwise_cons.mp h.apart).2⟩
  rest id execution hstored hfree :=
    hrest id execution hstored (hfree after List.mem_cons_self)
      fun other hother => hfree other (List.mem_cons_of_mem _ hother)
  absent := habsent

/-- One call changes, and nothing that is stored. -/
theorem quiet (h : Orderly Kind AtRest InHand { session with tasks := task :: others })
    (hkind : Kind host.store) (hconfig : engine.config = session.engine.config)
    (hnow : session.host.now ≤ host.now)
    (hstored : LawfulStore.stored host.store = session.stored)
    (hfits : Fits InHand ⟨engine, host, after :: others, session.chronicles⟩ after)
    (hactive : ∀ id, after.call.holds? = some id → engine.isActive id = true)
    (hkept : ∀ id, session.engine.isActive id = true → task.call.holds? ≠ some id →
      engine.isActive id = true)
    (hapart : ∀ other ∈ others, after.Apart other)
    (hrest : ∀ id execution, task.call.running? = some id → session.stored id = some execution →
      after.call.running? = some id ∨ AtRest (session.chronicles id) execution) :
    Orderly Kind AtRest InHand ⟨engine, host, after :: others, session.chronicles⟩ := by
  refine h.change hkind hconfig hnow ?_ hfits hactive hkept hapart ?_ ?_
  · intro other _ id _
    exact ⟨congrFun hstored id, rfl⟩
  · intro id execution hfound hafter hothers
    rw [hstored] at hfound
    by_cases htask : task.call.running? = some id
    · exact (hrest id execution htask hfound).resolve_left hafter
    · refine h.rest id execution hfound ?_
      intro other hother
      rcases List.mem_cons.mp hother with rfl | hother
      · exact htask
      · exact hothers other hother
  · intro id hnone
    rw [hstored] at hnone
    exact h.absent id hnone

/-- One call changes, and with it one execution that no other call relies on. -/
theorem write {id : ExecutionId} {execution : StoredExecution} {chronicle : Chronicle}
    (h : Orderly Kind AtRest InHand { session with tasks := task :: others })
    (hkind : Kind host.store) (hconfig : engine.config = session.engine.config)
    (hnow : session.host.now ≤ host.now)
    (hstored : LawfulStore.stored host.store =
      Function.update session.stored id (some execution))
    (hothers : ∀ other ∈ others, other.call.reads? ≠ some id)
    (hfits : Fits InHand ⟨engine, host, after :: others,
      Function.update session.chronicles id chronicle⟩ after)
    (hactive : ∀ id, after.call.holds? = some id → engine.isActive id = true)
    (hkept : ∀ id, session.engine.isActive id = true → task.call.holds? ≠ some id →
      engine.isActive id = true)
    (hapart : ∀ other ∈ others, after.Apart other)
    (hrunning : ∀ other, task.call.running? = some other → other = id)
    (hrest : after.call.running? ≠ some id → AtRest chronicle execution) :
    Orderly Kind AtRest InHand
      ⟨engine, host, after :: others, Function.update session.chronicles id chronicle⟩ := by
  refine h.change hkind hconfig hnow ?_ hfits hactive hkept hapart ?_ ?_
  · intro other hother found hreads
    have hne : found ≠ id := by
      rintro rfl
      exact hothers other hother hreads
    rw [hstored, Function.update_of_ne hne, Function.update_of_ne hne]
    exact ⟨rfl, rfl⟩
  · intro found record hfound hafter hfree
    by_cases hid : found = id
    · subst hid
      rw [hstored, Function.update_self] at hfound
      rw [Function.update_self]
      cases hfound
      exact hrest hafter
    · rw [hstored, Function.update_of_ne hid] at hfound
      rw [Function.update_of_ne hid]
      refine h.rest found record hfound ?_
      intro other hmem
      rcases List.mem_cons.mp hmem with rfl | hmem
      · exact fun htask => hid (hrunning found htask)
      · exact hfree other hmem
  · intro found hnone
    by_cases hid : found = id
    · subst hid
      rw [hstored, Function.update_self] at hnone
      cases hnone
    · rw [hstored, Function.update_of_ne hid] at hnone
      rw [Function.update_of_ne hid]
      exact h.absent found hnone

/-- A call that is over or about to begin stands in nobody's way. -/
private theorem apart_of_none (hholds : after.call.holds? = none) (howns : after.call.owns? = none)
    (other : Task) : after.Apart other := by
  constructor
  · intro id hafter
    rw [hholds] at hafter
    cases hafter
  · intro id hafter
    rw [howns] at hafter
    cases hafter

/-- A call is refused, or over: what it ran is at rest, and others may take on what it held. -/
private theorem leave {outcome : Except EngineError RunResult}
    (h : Orderly Kind AtRest InHand { session with tasks := task :: others })
    (hconfig : engine.config = session.engine.config)
    (hkept : ∀ id, session.engine.isActive id = true → task.call.holds? ≠ some id →
      engine.isActive id = true)
    (hkind : Kind host.store) (hnow : session.host.now ≤ host.now)
    (hstored : LawfulStore.stored host.store = session.stored)
    (hrest : ∀ id execution, task.call.running? = some id →
      session.stored id = some execution → AtRest (session.chronicles id) execution) :
    Orderly Kind AtRest InHand
      ⟨engine, host, ⟨task.request, .ended outcome⟩ :: others, session.chronicles⟩ := by
  refine h.quiet hkind hconfig hnow hstored ?_ ?_ hkept ?_ ?_
  · exact trivial
  · intro id hholds
    cases hholds
  · intro other _
    exact apart_of_none rfl rfl other
  · intro id execution hrunning hexecution
    exact Or.inr (hrest id execution hrunning hexecution)

private theorem ask (h : session.Orderly Kind AtRest InHand) (request : Request) :
    Orderly Kind AtRest InHand
      { session with tasks := ⟨request, request.call⟩ :: session.tasks } where
  kind := h.kind
  fits task htask := by
    rcases List.mem_cons.mp htask with rfl | htask
    · cases request <;> rfl
    · exact (h.fits task htask).frame rfl (Nat.le_refl _) fun _ _ => ⟨rfl, rfl⟩
  active task htask id hholds := by
    rcases List.mem_cons.mp htask with rfl | htask
    · cases request <;> cases hholds
    · exact h.active task htask id hholds
  apart := by
    refine List.pairwise_cons.mpr ⟨?_, h.apart⟩
    intro other _
    cases request <;> exact apart_of_none rfl rfl other
  rest id execution hstored hfree :=
    h.rest id execution hstored fun task htask => hfree task (List.mem_cons_of_mem _ htask)
  absent := h.absent

private theorem advance_starting (custody : Custody Kind AtRest InHand) {asked : Request}
    {request : StartRequest} {call : Call}
    (h : Orderly Kind AtRest InHand
      { session with tasks := ⟨asked, .starting request⟩ :: others })
    (hnext : (Call.starting request).next? session.engine session.host =
      some (call, engine, host)) :
    Orderly Kind AtRest InHand
      ⟨engine, host, ⟨asked, call⟩ :: others, session.note ⟨asked, .starting request⟩ call⟩ := by
  have hrequest : asked = .start request := h.fits _ List.mem_cons_self
  simp only [Call.next?] at hnext
  cases haccept : session.engine.accept request.workflow with
  | error cause =>
      simp only [haccept, Option.some.injEq, Prod.mk.injEq] at hnext
      obtain ⟨rfl, rfl, rfl⟩ := hnext
      refine h.leave rfl (fun _ hactive _ => hactive) h.kind (Nat.le_refl _) rfl ?_
      intro id execution hrunning
      cases hrunning
  | ok _ =>
      obtain ⟨header, host', hnew, hnow, hstore, hrefused, hcreated⟩ := Handle.create_cases request
        (session.engine.totalSteps request.workflow) session.host
      have hkind : Kind host'.store := by
        rw [hstore]
        exact custody.kind_insert h.kind
      cases hinsert : (ExecutionStore.insert session.host.store header).1 with
      | error cause =>
          simp only [haccept, hrefused cause hinsert, Option.some.injEq, Prod.mk.injEq] at hnext
          obtain ⟨rfl, rfl, rfl⟩ := hnext
          refine h.leave rfl (fun _ hactive _ => hactive) hkind (Nat.le_of_eq hnow.symm) ?_ ?_
          · rw [hstore]
            exact LawfulStore.insert_error hinsert
          · intro id execution hrunning
            cases hrunning
      | ok _ =>
          simp only [haccept, hcreated hinsert, Option.some.injEq, Prod.mk.injEq] at hnext
          obtain ⟨rfl, rfl, rfl⟩ := hnext
          obtain ⟨habsent, hstored⟩ := LawfulStore.insert_ok hinsert
          rw [← hstore] at hstored
          have hnote : session.note ⟨asked, .starting request⟩
              (.created request (.ofRecord ⟨header, []⟩)) =
              Function.update session.chronicles header.id [.created request] := by
            have hempty : session.chronicles header.id = [] := h.absent header.id habsent
            have hid : (ExecutionState.ofRecord ⟨header, []⟩).id = header.id := rfl
            simp only [note, Task.deeds, hid, hempty, List.nil_append]
          rw [hnote]
          have hothers : ∀ other ∈ others, other.call.reads? ≠ some header.id := by
            intro other hother hreads
            obtain ⟨execution, hfound⟩ :=
              (h.fits other (List.mem_cons_of_mem _ hother)).stored_of_reads hreads
            exact absurd (habsent.symm.trans hfound) (by simp)
          refine h.write hkind rfl (Nat.le_of_eq hnow.symm) hstored hothers ?_ ?_ ?_ ?_ ?_ ?_
          · refine ⟨hrequest, haccept, header, hnew, rfl, ?_, Function.update_self ..⟩
            exact (congrFun hstored _).trans (Function.update_self ..)
          · intro id hholds
            cases hholds
          · exact fun _ hactive _ => hactive
          · intro other hother
            refine ⟨fun id hholds => (by cases hholds), ?_⟩
            intro id howns hothers'
            cases howns
            exact hothers other hother (reads_of_owns hothers')
          · intro other hrunning
            cases hrunning
          · exact fun _ => custody.create hnew

private theorem advance_created (custody : Custody Kind AtRest InHand) {asked : Request}
    {request : StartRequest} {state : ExecutionState} {call : Call}
    (h : Orderly Kind AtRest InHand
      { session with tasks := ⟨asked, .created request state⟩ :: others })
    (hnext : (Call.created request state).next? session.engine session.host =
      some (call, engine, host)) :
    Orderly Kind AtRest InHand
      ⟨engine, host, ⟨asked, call⟩ :: others,
        session.note ⟨asked, .created request state⟩ call⟩ := by
  obtain ⟨hrequest, haccept, header, hnew, rfl, hstored, hchronicle⟩ :=
    h.fits _ List.mem_cons_self
  change asked = .start request at hrequest
  change session.chronicles header.id = [.created request] at hchronicle
  have hid : (ExecutionState.ofRecord ⟨header, []⟩).id = header.id := rfl
  simp only [Call.next?, hid] at hnext
  cases hactivate : session.engine.activate header.id with
  | error cause =>
      simp only [hactivate, Option.some.injEq, Prod.mk.injEq] at hnext
      obtain ⟨rfl, rfl, rfl⟩ := hnext
      refine h.leave rfl (fun _ hactive _ => hactive) h.kind (Nat.le_refl _) rfl ?_
      intro id execution hrunning
      cases hrunning
  | ok activated =>
      simp only [hactivate, Option.some.injEq, Prod.mk.injEq] at hnext
      obtain ⟨rfl, rfl, rfl⟩ := hnext
      obtain ⟨hidle, hactivated⟩ := Engine.activate_cases hactivate
      have hconfig : activated.config = session.engine.config := by rw [hactivated]
      have hactive : activated.isActive header.id = true := by
        rw [Engine.isActive_activated hactivate]
        simp
      refine h.quiet h.kind hconfig (Nat.le_refl _) rfl ?_ ?_ ?_ ?_ ?_
      · refine ⟨Nat.le_refl _, _, hstored, ?_⟩
        change InHand asked _ _ (session.chronicles header.id) _
        rw [hrequest, hchronicle]
        refine custody.start ?_ hnew
        rw [Engine.accept_congr hconfig]
        exact haccept
      · intro id hholds
        cases hholds
        exact hactive
      · intro id hother _
        rw [Engine.isActive_activated hactivate, hother]
        rfl
      · intro other hother
        refine ⟨?_, (List.pairwise_cons.mp h.apart).1 other hother |>.2⟩
        intro id hholds hother'
        cases hholds
        have hbusy := h.active other (List.mem_cons_of_mem _ hother) header.id hother'
        exact absurd (hidle.symm.trans hbusy) (by simp)
      · intro id execution hrunning
        cases hrunning

private theorem advance_resuming {asked : Request} {request : ResumeRequest} {call : Call}
    (h : Orderly Kind AtRest InHand
      { session with tasks := ⟨asked, .resuming request⟩ :: others })
    (hnext : (Call.resuming request).next? session.engine session.host =
      some (call, engine, host)) :
    Orderly Kind AtRest InHand
      ⟨engine, host, ⟨asked, call⟩ :: others, session.note ⟨asked, .resuming request⟩ call⟩ := by
  have hrequest : asked = .resume request := h.fits _ List.mem_cons_self
  simp only [Call.next?] at hnext
  cases hactivate : session.engine.activate request.id with
  | error cause =>
      simp only [hactivate, Option.some.injEq, Prod.mk.injEq] at hnext
      obtain ⟨rfl, rfl, rfl⟩ := hnext
      refine h.leave rfl (fun _ hactive _ => hactive) h.kind (Nat.le_refl _) rfl ?_
      intro id execution hrunning
      cases hrunning
  | ok activated =>
      simp only [hactivate, Option.some.injEq, Prod.mk.injEq] at hnext
      obtain ⟨rfl, rfl, rfl⟩ := hnext
      obtain ⟨hidle, hactivated⟩ := Engine.activate_cases hactivate
      refine h.quiet h.kind (by rw [hactivated]) (Nat.le_refl _) rfl hrequest ?_ ?_ ?_ ?_
      · intro id hholds
        cases hholds
        rw [Engine.isActive_activated hactivate]
        simp
      · intro id hother _
        rw [Engine.isActive_activated hactivate, hother]
        rfl
      · intro other hother
        refine ⟨?_, fun id howns => (by cases howns)⟩
        intro id hholds hother'
        cases hholds
        have hbusy := h.active other (List.mem_cons_of_mem _ hother) request.id hother'
        exact absurd (hidle.symm.trans hbusy) (by simp)
      · intro id execution hrunning
        cases hrunning

omit [ExecutionStore σ] [LawfulStore σ] in
/-- Who gives up an execution it holds leaves the others active. -/
theorem kept_of_release {id : ExecutionId} (hholds : task.call.holds? = some id)
    (other : ExecutionId) (hactive : session.engine.isActive other = true)
    (hother : task.call.holds? ≠ some other) :
    (session.engine.release id).isActive other = true := by
  have hne : other ≠ id := by
    rintro rfl
    exact hother hholds
  rw [Engine.isActive_release hne]
  exact hactive

/-- A call that fails before it runs gives up the execution it holds. -/
private theorem give_up {id : ExecutionId}
    (h : Orderly Kind AtRest InHand { session with tasks := task :: others })
    (hholds : task.call.holds? = some id) (hrunning : task.call.running? = none)
    (cause : EngineError) :
    Orderly Kind AtRest InHand
      ⟨session.engine.release id, session.host, ⟨task.request, .ended (.error cause)⟩ :: others,
        session.chronicles⟩ := by
  refine h.leave rfl (kept_of_release hholds) h.kind (Nat.le_refl _) rfl ?_
  intro other execution hother
  cases hrunning.symm.trans hother

private theorem advance_loading {asked : Request} {request : ResumeRequest} {call : Call}
    (h : Orderly Kind AtRest InHand
      { session with tasks := ⟨asked, .loading request⟩ :: others })
    (hnext : (Call.loading request).next? session.engine session.host =
      some (call, engine, host)) :
    Orderly Kind AtRest InHand
      ⟨engine, host, ⟨asked, call⟩ :: others, session.note ⟨asked, .loading request⟩ call⟩ := by
  have hrequest : asked = .resume request := h.fits _ List.mem_cons_self
  have hactive : session.engine.isActive request.id = true :=
    h.active _ List.mem_cons_self request.id rfl
  simp only [Call.next?] at hnext
  cases hload : ExecutionStore.loadHeader session.host.store request.id with
  | error cause =>
      simp only [hload, Option.some.injEq, Prod.mk.injEq] at hnext
      obtain ⟨rfl, rfl, rfl⟩ := hnext
      exact h.give_up rfl rfl _
  | ok found =>
      cases found with
      | none =>
          simp only [hload, Option.some.injEq, Prod.mk.injEq] at hnext
          obtain ⟨rfl, rfl, rfl⟩ := hnext
          exact h.give_up rfl rfl _
      | some header =>
          simp only [hload, Option.some.injEq, Prod.mk.injEq] at hnext
          obtain ⟨rfl, rfl, rfl⟩ := hnext
          have hfound := LawfulStore.loadHeader_ok hload
          obtain ⟨execution, hstored, hheader⟩ := Option.map_eq_some_iff.mp hfound.symm
          refine h.quiet h.kind rfl (Nat.le_refl _) rfl ?_ ?_ ?_ ?_ ?_
          · exact ⟨hrequest, execution, hstored, hheader⟩
          · intro id hholds
            cases hholds
            exact hactive
          · exact fun _ hother _ => hother
          · exact fun other hother => (List.pairwise_cons.mp h.apart).1 other hother
          · intro id execution hrunning
            cases hrunning

/-- A record that can be resumed has no owner, unless it is held. -/
private theorem unowned {id : ExecutionId} {other : Task} {execution : StoredExecution}
    (hfits : session.Fits InHand other) (hstored : session.stored id = some execution)
    (hresume : (ExecutionState.ofRecord
      (ExecutionStore.assemble execution.header execution.log)).canResume = true)
    (hfree : other.call.holds? ≠ some id) : other.call.owns? ≠ some id := by
  intro howns
  unfold Fits at hfits
  cases hcall : other.call with
  | starting | resuming | loading | loadingLog | ended => simp [hcall, Call.owns?] at howns
  | created request state =>
      simp only [hcall] at hfits howns
      obtain ⟨-, -, header, ⟨_, _, _, rfl⟩, rfl, hfound, -⟩ := hfits
      cases howns
      obtain rfl := Option.some.inj (hstored.symm.trans hfound)
      cases hresume
  | driving scope run =>
      rw [hcall] at hfree howns
      exact hfree howns

/-- A record that was read whole and can be resumed becomes the copy of a run. -/
private theorem begin_resumed (custody : Custody Kind AtRest InHand) {asked : Request}
    {request : ResumeRequest} {execution : StoredExecution} {workflow : Workflow}
    {state : ExecutionState}
    (h : Orderly Kind AtRest InHand
      { session with tasks := ⟨asked, .loadingLog request execution.header⟩ :: others })
    (hrequest : asked = .resume request)
    (hstored : session.stored request.id = some execution)
    (hprepare : Call.prepareResume session.engine request
      (.ofRecord (ExecutionStore.assemble execution.header execution.log)) = .ok (workflow, state)) :
    Orderly Kind AtRest InHand
      ⟨session.engine, (Call.drive session.engine workflow state session.host).2,
        ⟨asked, (Call.drive session.engine workflow state session.host).1⟩ :: others,
        session.note ⟨asked, .loadingLog request execution.header⟩
          (Call.drive session.engine workflow state session.host).1⟩ := by
  have hactive : session.engine.isActive request.id = true :=
    h.active _ List.mem_cons_self request.id rfl
  have hfree : ∀ other ∈ others, other.call.holds? ≠ some request.id := by
    intro other hother hholds
    exact ((List.pairwise_cons.mp h.apart).1 other hother).1 request.id rfl hholds
  obtain ⟨hresume, -, -, hstate⟩ := Call.prepareResume_cases hprepare
  have hid : state.id = request.id := by
    have hheader : execution.header.id = request.id := LawfulStore.stored_id hstored
    rw [hstate]
    cases request.input <;> exact hheader
  have hrest := h.rest request.id execution hstored (by
    intro other hother
    rcases List.mem_cons.mp hother with rfl | hother
    · simp [Call.running?]
    · exact fun hrunning => hfree other hother (holds_of_running hrunning))
  refine h.quiet h.kind rfl (Nat.le_refl _) rfl ?_ ?_ ?_ ?_ ?_
  · refine ⟨Nat.le_refl _, execution, ?_, ?_⟩
    · change session.stored state.id = _
      rw [hid]
      exact hstored
    · change InHand asked _ _ (session.chronicles state.id) _
      rw [hrequest, hid]
      exact custody.resume hrest hprepare
  · intro id hholds
    obtain rfl : state.id = id := Option.some.inj hholds
    rw [hid]
    exact hactive
  · exact fun _ hother _ => hother
  · intro other hother
    constructor
    · intro id hholds
      obtain rfl : state.id = id := Option.some.inj hholds
      rw [hid]
      exact hfree other hother
    · intro id howns
      obtain rfl : state.id = id := Option.some.inj howns
      rw [hid]
      exact unowned (h.fits other (List.mem_cons_of_mem _ hother)) hstored hresume
        (hfree other hother)
  · intro id record hrunning
    cases hrunning

private theorem advance_loadingLog (custody : Custody Kind AtRest InHand) {asked : Request}
    {request : ResumeRequest} {header : ExecutionHeader} {call : Call}
    (h : Orderly Kind AtRest InHand
      { session with tasks := ⟨asked, .loadingLog request header⟩ :: others })
    (hnext : (Call.loadingLog request header).next? session.engine session.host =
      some (call, engine, host)) :
    Orderly Kind AtRest InHand
      ⟨engine, host, ⟨asked, call⟩ :: others,
        session.note ⟨asked, .loadingLog request header⟩ call⟩ := by
  obtain ⟨hrequest, execution, hstored, rfl⟩ := h.fits _ List.mem_cons_self
  change asked = .resume request at hrequest
  simp only [Call.next?] at hnext
  cases hload : ExecutionStore.loadCheckpoints session.host.store request.id 0 with
  | error cause =>
      simp only [hload, Option.some.injEq, Prod.mk.injEq] at hnext
      obtain ⟨rfl, rfl, rfl⟩ := hnext
      exact h.give_up rfl rfl _
  | ok log =>
      obtain ⟨found, hfound, hlog⟩ := LawfulStore.loadCheckpoints_ok hload
      obtain rfl := Option.some.inj (hstored.symm.trans hfound)
      have hlog : log = execution.log := by
        rw [hlog]
        exact List.filter_eq_self.mpr fun _ _ => decide_eq_true (Nat.zero_le _)
      subst hlog
      simp only [hload] at hnext
      cases hprepare : Call.prepareResume session.engine request
          (.ofRecord (ExecutionStore.assemble execution.header execution.log)) with
      | error cause =>
          simp only [hprepare, Option.some.injEq, Prod.mk.injEq] at hnext
          obtain ⟨rfl, rfl, rfl⟩ := hnext
          exact h.give_up rfl rfl _
      | ok prepared =>
          simp only [hprepare, Option.some.injEq, Prod.mk.injEq] at hnext
          obtain ⟨rfl, rfl, rfl⟩ := hnext
          exact h.begin_resumed custody hrequest hstored hprepare

/-- A run that stays itself stays apart from the other calls. -/
private theorem apart_driving {asked : Request} {scope : Scope} {run run' : Run}
    (h : Orderly Kind AtRest InHand
      { session with tasks := ⟨asked, .driving scope run⟩ :: others }) (hid : run'.id = run.id) :
    ∀ other ∈ others, Task.Apart ⟨asked, .driving scope run'⟩ other := by
  intro other hother
  have hapart := (List.pairwise_cons.mp h.apart).1 other hother
  refine ⟨fun id hholds => ?_, fun id howns => ?_⟩
  · exact hapart.1 id ((congrArg some hid.symm).trans hholds)
  · exact hapart.2 id ((congrArg some hid.symm).trans howns)

/-- The commit of a run takes effect. -/
private theorem land_driving (custody : Custody Kind AtRest InHand) {asked : Request}
    {scope : Scope} {run run' : Run} {cancelled : Bool}
    (h : Orderly Kind AtRest InHand
      { session with tasks := ⟨asked, .driving scope run⟩ :: others })
    (hnow : host.now = session.host.now)
    (hlands : ({ run with cancelled } : Run).Lands session.host run' host) :
    Orderly Kind AtRest InHand
      ⟨session.engine, host, ⟨asked, .driving scope run'⟩ :: others,
        session.note ⟨asked, .driving scope run⟩ (.driving scope run')⟩ := by
  obtain ⟨hstarted, execution, hstored, hinHand⟩ := h.fits _ List.mem_cons_self
  obtain ⟨hid, after, hafter, hinHand'⟩ :=
    custody.land (custody.attend cancelled hinHand) h.kind hstored hlands
  change run'.id = run.id at hid
  have hclock : run'.startedAt = run.startedAt := hlands.clock.1
  have hkind : Kind host.store := by
    cases hlands with
    | intro _ _ hstore => exact hstore ▸ custody.kind_commit h.kind
  refine h.write hkind rfl (Nat.le_of_eq hnow.symm) hafter ?_ ?_ ?_ ?_ ?_ ?_ ?_
  · intro other hother hreads
    have hapart := (List.pairwise_cons.mp h.apart).1 other hother
    rcases holds_or_owns_of_reads hreads with hholds | howns
    · exact hapart.1 run.id rfl hholds
    · exact hapart.2 run.id rfl howns
  · refine ⟨?_, after, ?_, ?_⟩
    · change run'.startedAt ≤ host.now
      rw [hclock, hnow]
      exact hstarted
    · change LawfulStore.stored host.store run'.id = _
      rw [hafter, hid]
      exact Function.update_self ..
    · change InHand asked scope run' (Function.update session.chronicles run.id _ run'.id) _
      rw [hid, Function.update_self]
      exact hinHand'
  · intro id hholds
    obtain rfl : run'.id = id := Option.some.inj hholds
    rw [hid]
    exact h.active _ List.mem_cons_self run.id rfl
  · exact fun _ hother _ => hother
  · exact h.apart_driving hid
  · intro other hrunning
    exact (Option.some.inj hrunning).symm
  · intro hother
    exact absurd (congrArg some hid) hother

/-- A run does something itself, and the store stays as it is. -/
private theorem act_driving (custody : Custody Kind AtRest InHand) {asked : Request}
    {scope : Scope} {run run' : Run} {cancelled : Bool}
    (h : Orderly Kind AtRest InHand
      { session with tasks := ⟨asked, .driving scope run⟩ :: others })
    (hnow : host.now = session.host.now) (hstore : host.store = session.host.store)
    (hact : ({ run with cancelled } : Run).Act scope session.host run') :
    Orderly Kind AtRest InHand
      ⟨session.engine, host, ⟨asked, .driving scope run'⟩ :: others,
        session.note ⟨asked, .driving scope run⟩ (.driving scope run')⟩ := by
  obtain ⟨hstarted, execution, hstored, hinHand⟩ := h.fits _ List.mem_cons_self
  have hattend := custody.attend cancelled hinHand
  obtain ⟨hid, hinHand'⟩ := custody.act hattend h.kind hstarted hstored hact
  change run'.id = run.id at hid
  have hclock : run'.startedAt = run.startedAt := (hact.clock (custody.legal hattend)).1
  have hnote : session.note ⟨asked, .driving scope run⟩ (.driving scope run') =
      session.chronicles := by
    have hdeeds : run.deeds run' scope asked.input? = [] :=
      hact.deeds (custody.legal hattend) scope asked.input?
    simp only [note, Task.deeds, hdeeds, List.append_nil, Function.update_eq_self]
  rw [hnote]
  have hsame : LawfulStore.stored host.store = session.stored := congrArg _ hstore
  have hkind : Kind host.store := hstore ▸ h.kind
  refine h.quiet hkind rfl (Nat.le_of_eq hnow.symm) hsame ?_ ?_ ?_ ?_ ?_
  · refine ⟨?_, execution, ?_, ?_⟩
    · change run'.startedAt ≤ host.now
      rw [hclock, hnow]
      exact hstarted
    · change LawfulStore.stored host.store run'.id = _
      rw [hsame, hid]
      exact hstored
    · change InHand asked scope run' (session.chronicles run'.id) _
      rw [hid]
      exact hinHand'
  · intro id hholds
    obtain rfl : run'.id = id := Option.some.inj hholds
    rw [hid]
    exact h.active _ List.mem_cons_self run.id rfl
  · exact fun _ hother _ => hother
  · exact h.apart_driving hid
  · intro id record hrunning _
    exact Or.inl ((congrArg some hid).trans hrunning)

private theorem advance_driving (custody : Custody Kind AtRest InHand) {asked : Request}
    {scope : Scope} {run : Run} {call : Call}
    (h : Orderly Kind AtRest InHand
      { session with tasks := ⟨asked, .driving scope run⟩ :: others })
    (hnext : (Call.driving scope run).next? session.engine session.host =
      some (call, engine, host)) :
    Orderly Kind AtRest InHand
      ⟨engine, host, ⟨asked, call⟩ :: others, session.note ⟨asked, .driving scope run⟩ call⟩ := by
  simp only [Call.next?] at hnext
  generalize hcancelled : (run.cancelled || session.engine.isCancelled run.id) = cancelled at hnext
  cases hresult : ({ run with cancelled } : Run).result? with
  | some result =>
      simp only [hresult, Option.some.injEq, Prod.mk.injEq] at hnext
      obtain ⟨rfl, rfl, rfl⟩ := hnext
      obtain ⟨-, execution, hstored, hinHand⟩ := h.fits _ List.mem_cons_self
      refine h.leave rfl (kept_of_release rfl) h.kind (Nat.le_refl _) rfl ?_
      intro id record hrunning hrecord
      obtain rfl : run.id = id := Option.some.inj hrunning
      obtain rfl := Option.some.inj (hstored.symm.trans hrecord)
      exact custody.finish hinHand hresult
  | none =>
      simp only [hresult, Option.map_eq_some_iff] at hnext
      obtain ⟨⟨run', host'⟩, hrun, hnext⟩ := hnext
      simp only [Prod.mk.injEq] at hnext
      obtain ⟨rfl, rfl, rfl⟩ := hnext
      obtain ⟨hnow, hlands | ⟨hstore, hact⟩⟩ := Run.next?_cases hrun
      · exact h.land_driving custody hnow hlands
      · exact h.act_driving custody hnow hstore hact

private theorem advance (custody : Custody Kind AtRest InHand) {call : Call}
    (h : Orderly Kind AtRest InHand { session with tasks := task :: others })
    (hnext : task.call.next? session.engine session.host = some (call, engine, host)) :
    Orderly Kind AtRest InHand
      ⟨engine, host, ⟨task.request, call⟩ :: others, session.note task call⟩ := by
  obtain ⟨asked, standing⟩ := task
  cases standing with
  | starting request => exact h.advance_starting custody hnext
  | created request state => exact h.advance_created custody hnext
  | resuming request => exact h.advance_resuming hnext
  | loading request => exact h.advance_loading hnext
  | loadingLog request header => exact h.advance_loadingLog custody hnext
  | driving scope run => exact h.advance_driving custody hnext
  | ended outcome => cases hnext

/-- Nothing but the engine or the time changes. -/
private theorem around (h : session.Orderly Kind AtRest InHand)
    (hconfig : engine.config = session.engine.config)
    (hnow : session.host.now ≤ host.now) (hstore : host.store = session.host.store)
    (hactive : ∀ id, session.engine.isActive id = true → engine.isActive id = true) :
    Orderly Kind AtRest InHand { session with engine, host } where
  kind := hstore ▸ h.kind
  fits task htask := (h.fits task htask).frame hconfig hnow fun id _ =>
    ⟨congrArg (LawfulStore.stored · id) hstore, rfl⟩
  active task htask id hholds := hactive id (h.active task htask id hholds)
  apart := h.apart
  rest id execution hstored hfree := by
    unfold stored at hstored
    rw [hstore] at hstored
    exact h.rest id execution hstored hfree
  absent id hnone := by
    unfold stored at hnone
    rw [hstore] at hnone
    exact h.absent id hnone

private theorem replace (h : session.Orderly Kind AtRest InHand)
    (hover : ∀ task ∈ session.tasks, ∃ outcome, task.call = .ended outcome) :
    Orderly Kind AtRest InHand { session with engine } where
  kind := h.kind
  fits task htask := by
    obtain ⟨outcome, hcall⟩ := hover task htask
    unfold Fits
    rw [hcall]
    exact trivial
  active task htask id hholds := by
    obtain ⟨outcome, hcall⟩ := hover task htask
    rw [hcall] at hholds
    cases hholds
  apart := h.apart
  rest := h.rest
  absent := h.absent

theorem step {later : Session σ} (custody : Custody Kind AtRest InHand)
    (h : session.Orderly Kind AtRest InHand) (hstep : session.Step later) :
    later.Orderly Kind AtRest InHand := by
  cases hstep with
  | ask request => exact h.ask request
  | advance htasks hnext => exact (h.perm htasks).advance custody hnext
  | wait time =>
      have hnow : session.host.now ≤ (session.host.waitUntil time).now := by
        unfold Host.waitUntil
        exact Nat.le_max_left session.host.now time
      have hstore : (session.host.waitUntil time).store = session.host.store :=
        Host.store_at session.host _ _
      exact h.around rfl hnow hstore fun _ hactive => hactive
  | cancel id =>
      refine h.around rfl (Nat.le_refl _) rfl ?_
      intro other hactive
      rw [Engine.isActive_cancel]
      exact hactive
  | register hengine =>
      obtain ⟨hconfig, hactive⟩ := Engine.register_cases hengine
      refine h.around hconfig (Nat.le_refl _) rfl ?_
      intro other hother
      unfold Engine.isActive
      rw [hactive]
      exact hother
  | remove id => exact h.around rfl (Nat.le_refl _) rfl fun _ hactive => hactive
  | replace engine hover hidle => exact h.replace hover

end Orderly

/-- Every stored execution is at rest or in the hands of a run. -/
theorem Orderly.kept {session : Session σ} (h : session.Orderly Kind AtRest InHand)
    {id : ExecutionId} {execution : StoredExecution}
    (hstored : session.stored id = some execution) :
    AtRest (session.chronicles id) execution ∨
      ∃ task ∈ session.tasks, ∃ scope run, task.call = .driving scope run ∧
        InHand task.request scope run (session.chronicles id) execution := by
  by_cases hrun : ∃ task ∈ session.tasks, task.call.running? = some id
  · obtain ⟨task, htask, hrunning⟩ := hrun
    have hfits := h.fits task htask
    cases hcall : task.call with
    | driving scope run =>
        rw [hcall] at hrunning
        obtain rfl := Option.some.inj hrunning
        simp only [Fits, hcall] at hfits
        obtain ⟨-, found, hfound, hinHand⟩ := hfits
        obtain rfl := Option.some.inj (hstored.symm.trans hfound)
        exact Or.inr ⟨task, htask, scope, run, hcall, hinHand⟩
    | _ =>
        rw [hcall] at hrunning
        cases hrunning
  · refine Or.inl (h.rest id execution hstored ?_)
    exact fun task htask hrunning => hrun ⟨task, htask, hrunning⟩

/-- What runs keep of an execution is good enough for it to be at rest, so calls can be dropped. -/
theorem Orderly.drop {session : Session σ} {task : Task} {others : List Task}
    (hdrop : ∀ {request scope run chronicle execution},
      InHand request scope run chronicle execution → AtRest chronicle execution)
    (h : session.Orderly Kind AtRest InHand) (htasks : session.tasks.Perm (task :: others)) :
    Orderly Kind AtRest InHand { session with
      engine := task.call.holds?.elim session.engine session.engine.release
      tasks := others } := by
  have hperm := h.perm htasks
  have hkept : ∀ other ∈ others, ∀ id, other.call.holds? = some id →
      (task.call.holds?.elim session.engine session.engine.release).isActive id = true := by
    intro other hother id hholds
    have hactive := hperm.active other (List.mem_cons_of_mem _ hother) id hholds
    cases htask : task.call.holds? with
    | none => exact hactive
    | some held =>
        refine Orderly.kept_of_release htask id hactive ?_
        exact fun hsame => ((List.pairwise_cons.mp hperm.apart).1 other hother).1 id hsame hholds
  refine ⟨h.kind, ?_, hkept, (List.pairwise_cons.mp hperm.apart).2, ?_, h.absent⟩
  · intro other hother
    refine (hperm.fits other (List.mem_cons_of_mem _ hother)).frame ?_ (Nat.le_refl _)
      fun _ _ => ⟨rfl, rfl⟩
    cases task.call.holds? <;> rfl
  · intro id execution hstored _
    obtain hrest | ⟨_, -, _, _, -, hinHand⟩ := h.kept hstored
    · exact hrest
    · exact hdrop hinHand

/-- Another engine finds the store as the calls of the one before it left it. -/
theorem Orderly.restart {session : Session σ} {engine : Engine} {host : Host σ}
    (hdrop : ∀ {request scope run chronicle execution},
      InHand request scope run chronicle execution → AtRest chronicle execution)
    (h : session.Orderly Kind AtRest InHand) (hstore : host.store = session.host.store) :
    Orderly Kind AtRest InHand { engine, host, chronicles := session.chronicles } := by
  refine ⟨hstore ▸ h.kind, ?_, ?_, List.Pairwise.nil, ?_, fun id hnone => h.absent id ?_⟩
  · intro task htask
    cases htask
  · intro task htask
    cases htask
  · intro id execution hstored _
    unfold stored at hstored
    simp only [hstore] at hstored
    obtain hrest | ⟨_, -, _, _, -, hinHand⟩ := h.kept hstored
    · exact hrest
    · exact hdrop hinHand
  · rw [← hnone]
    exact (congrArg (LawfulStore.stored · id) hstore).symm

/-- What a call runs is stored and in its hands. -/
theorem Orderly.driven {session : Session σ} (h : session.Orderly Kind AtRest InHand) {task : Task}
    (htask : task ∈ session.tasks) {scope : Scope} {run : Run}
    (hcall : task.call = .driving scope run) :
    ∃ execution, session.stored run.id = some execution ∧
      InHand task.request scope run (session.chronicles run.id) execution := by
  have hfits := h.fits task htask
  simp only [Fits, hcall] at hfits
  exact hfits.2

/-- An empty store is in good order. -/
theorem orderly_initial {engine : Engine} {host : Host σ}
    (hempty : ∀ id, LawfulStore.stored host.store id = none) (hkind : Kind host.store) :
    Orderly Kind AtRest InHand { engine, host } := by
  refine ⟨hkind, ?_, ?_, List.Pairwise.nil, ?_, fun _ _ => rfl⟩
  · intro task htask
    cases htask
  · intro task htask
    cases htask
  · intro id execution hstored
    exact absurd ((hempty id).symm.trans hstored) (by simp)

/-- What runs keep holds in every reachable session. -/
theorem Reachable.orderly (custody : Custody Kind AtRest InHand) {session : Session σ}
    (h : Reachable Kind session) : session.Orderly Kind AtRest InHand := by
  induction h with
  | initial _ hempty hkind => exact orderly_initial hempty hkind
  | step _ hstep ih => exact ih.step custody hstep

end Session

end WorkflowEngine
