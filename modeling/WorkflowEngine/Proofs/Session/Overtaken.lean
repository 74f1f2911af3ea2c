import WorkflowEngine.Proofs.Session.Once
import WorkflowEngine.Proofs.Session.Restart

/-!
# Calls that are refused behind their record

A fresh execution is put into the store before its id is taken on. In between anybody can find it there
and resume it; the resuming call takes the id on first, finds a record that is pending and is refused,
but by then the call that created the record may have been refused too, as busy. The record is left
behind, pending for ever, because nothing that is pending can be resumed.

Nothing else makes a call fail behind its record: before it is created nothing is written, and a call
that runs an execution has a result.
-/
namespace WorkflowEngine

/-- To start a definition by its id is to start the registered one, or to be refused at once. -/
theorem Call.startNamed_cases (engine : Engine) (id : WorkflowId) (userId : String)
    (context : Context) :
    startNamed engine id userId context = .ended (.error (.workflow (.notFound id))) ∨
      ∃ workflow, engine.workflow? id = some workflow ∧
        startNamed engine id userId context = (Request.start ⟨workflow, userId, context⟩).call := by
  unfold startNamed
  cases hfound : engine.workflow? id with
  | none => exact Or.inl rfl
  | some workflow => exact Or.inr ⟨workflow, rfl, rfl⟩

namespace Session

section

variable {σ : Type} [ExecutionStore σ]

/-- What becomes of a session, where at any time a caller may drop a call, and the process may stop and
an idle engine of another one take over the store. -/
inductive Follows (first : Session σ) : Session σ → Prop
  | refl : Follows first first
  | step {session later : Session σ} (h : Follows first session) (hstep : session.Step later) :
      Follows first later
  | drop {session : Session σ} {task : Task} {others : List Task} (h : Follows first session)
      (htasks : session.tasks.Perm (task :: others)) :
      Follows first { session with
        engine := task.call.holds?.elim session.engine session.engine.release
        tasks := others }
  | restart {session : Session σ} {engine : Engine} {host : Host σ} (h : Follows first session)
      (hidle : engine.active = []) (hstore : host.store = session.host.store) :
      Follows first { engine, host, chronicles := session.chronicles }

theorem Follows.play {first session : Session σ} (fuel : Nat) (h : first.Follows session) :
    first.Follows (session.play fuel) := by
  induction fuel generalizing session with
  | zero => exact h
  | succ fuel ih =>
      rw [play_succ]
      apply ih
      rcases step_play session with hsame | hstep
      · rw [hsame]
        exact h
      · exact h.step hstep

/-- Let the call that was made before the last one go on. -/
def overtake (session : Session σ) : Session σ :=
  match session.tasks with
  | last :: task :: others =>
    match task.call.next? session.engine session.host with
    | some (call, engine, host) =>
      { engine, host
        tasks := ⟨task.request, call⟩ :: last :: others
        chronicles := session.note task call }
    | none => session
  | _ => session

theorem overtake_eq {session : Session σ} {last task : Task} {others : List Task} {call : Call}
    {engine : Engine} {host : Host σ} (htasks : session.tasks = last :: task :: others)
    (hnext : task.call.next? session.engine session.host = some (call, engine, host)) :
    session.overtake =
      ⟨engine, host, ⟨task.request, call⟩ :: last :: others, session.note task call⟩ := by
  unfold overtake
  simp only [htasks, hnext]

theorem Follows.overtake {first session : Session σ} (h : first.Follows session) :
    first.Follows session.overtake := by
  unfold Session.overtake
  split
  · rename_i last task others htasks
    split
    · rename_i call engine host hnext
      refine h.step (.advance ?_ hnext)
      rw [htasks]
      exact List.Perm.swap task last others
    · exact h
  · exact h

end

variable {σ : Type} [ExecutionStore σ] [LawfulStore σ] {Kind : σ → Prop}
  {first session later : Session σ}

theorem Survives.follows (h : Survives Kind first) (hfollows : first.Follows session) :
    Survives Kind session := by
  induction hfollows with
  | refl => exact h
  | step _ hstep ih => exact ih.step hstep
  | drop _ htasks ih => exact ih.drop htasks
  | restart _ hidle hstore ih => exact ih.restart hidle hstore

/-- In every lawful store the runs keep something, whatever it is. -/
private theorem Survives.custodial (h : Survives (fun _ => True) session) :
    ∃ AtRest InHand, Custody (σ := σ) (fun _ => True) AtRest InHand ∧
      session.Orderly (fun _ => True) AtRest InHand := by
  have custody : Custody (fun _ : σ => True) _ _ :=
    once_conduct.custody (fun _ => trivial) fun _ => trivial
  exact ⟨_, _, custody, h.orderly custody fun hinHand => ⟨hinHand.1, hinHand.2.1⟩⟩

section

variable {AtRest : Chronicle → StoredExecution → Prop}
  {InHand : Request → Scope → Run → Chronicle → StoredExecution → Prop}
  {task : Task} {call : Call} {engine : Engine} {host : Host σ} {id id' : ExecutionId}

/-- A call goes on with what it holds. -/
theorem Orderly.holds_kept (custody : Custody Kind AtRest InHand)
    (h : session.Orderly Kind AtRest InHand) (htask : task ∈ session.tasks)
    (hnext : task.call.next? session.engine session.host = some (call, engine, host))
    (hholds : task.call.holds? = some id) (hafter : call.holds? = some id') : id' = id := by
  have hfits := h.fits task htask
  cases hcall : task.call with
  | starting | created | resuming | ended =>
      rw [hcall] at hholds
      cases hholds
  | loading request =>
      rw [hcall] at hnext hholds
      cases hholds
      simp only [Call.next?] at hnext
      split at hnext <;> cases hnext <;> cases hafter
      rfl
  | loadingLog request header =>
      simp only [hcall, Fits] at hnext hholds hfits
      cases hholds
      obtain ⟨-, execution, hstored, rfl⟩ := hfits
      obtain ⟨-, ⟨outcome, rfl⟩ | ⟨log, workflow, state, cancelled, hprepare, rfl⟩⟩ :=
        Call.loadingLog_cases hnext
      · cases hafter
      · obtain ⟨-, -, -, hstate⟩ := Call.prepareResume_cases hprepare
        cases hafter
        have hheader : state.header.id = execution.header.id := by
          rw [hstate]
          cases request.input <;> rfl
        exact hheader.trans (LawfulStore.stored_id hstored)
  | driving scope run =>
      simp only [hcall, Fits] at hnext hholds hfits
      cases hholds
      obtain ⟨hstarted, execution, hstored, hinHand⟩ := hfits
      rcases Call.driving_cases hnext with
        ⟨-, result, rfl⟩ | ⟨run', cancelled, rfl, hlands | ⟨-, hact⟩⟩
      · cases hafter
      · cases hafter
        exact (custody.land (custody.attend cancelled hinHand) h.kind hstored hlands).1
      · cases hafter
        exact (custody.act (custody.attend cancelled hinHand) h.kind hstarted hstored hact).1

end

/-- From an idle engine on, what is active is what the calls hold. -/
theorem Follows.serves (hfirst : Survives (fun _ => True) first)
    (hserves : first.engine.Serves (first.tasks.map (·.call))) (h : first.Follows session) :
    session.engine.Serves (session.tasks.map (·.call)) := by
  induction h with
  | refl => exact hserves
  | @step session later hbefore hstep ih =>
      obtain ⟨_, _, custody, horderly⟩ := (hfirst.follows hbefore).custodial
      cases hstep with
      | ask request =>
          apply (Engine.Serves.cons_iff ?_).mpr ih
          cases request <;> rfl
      | @advance task others call engine host htasks hnext =>
          apply (ih.perm (htasks.map (·.call))).next hnext
          intro id id' hholds hafter
          exact horderly.holds_kept custody (htasks.mem_iff.mpr List.mem_cons_self) hnext hholds
            hafter
      | wait time => exact ih
      | cancel id => exact ih.congr Engine.activeIds_cancel
      | register hengine => exact ih.congr (Engine.activeIds_register hengine)
      | remove id => exact ih.congr rfl
      | replace engine hover hidle =>
          apply Engine.Serves.idle hidle
          intro call hcall
          obtain ⟨task, htask, rfl⟩ := List.mem_map.mp hcall
          obtain ⟨outcome, hended⟩ := hover task htask
          rw [hended]
          rfl
  | @drop session task others _ htasks ih =>
      have hperm := ih.perm (htasks.map (·.call))
      cases hholds : task.call.holds? with
      | none => exact (Engine.Serves.cons_iff hholds).mp hperm
      | some id => exact hperm.leave hholds
  | restart _ hidle _ _ => exact .idle hidle fun call hcall => by cases hcall

/-- What a call runs, it may write. -/
private theorem owns_of_running {call : Call} {id : ExecutionId} (h : call.running? = some id) :
    call.owns? = some id := by
  cases call <;> first | exact h | cases h

/-- A fresh record that no call can write. -/
structure Abandoned (header : ExecutionHeader) (session : Session σ) : Prop where
  stored : session.stored header.id = some ⟨header, []⟩
  free : ∀ task ∈ session.tasks, task.call.owns? ≠ some header.id

section

variable {header : ExecutionHeader}

/-- Nobody takes on an execution that is pending, and so its record stays. -/
private theorem Abandoned.advance {task : Task} {others : List Task} {call : Call}
    {engine : Engine} {host : Host σ} (h : Abandoned header session)
    (hpending : header.status = .pending) (hsurvives : Survives (fun _ => True) session)
    (htasks : session.tasks.Perm (task :: others))
    (hnext : task.call.next? session.engine session.host = some (call, engine, host)) :
    LawfulStore.stored host.store header.id = some ⟨header, []⟩ ∧
      call.owns? ≠ some header.id := by
  obtain ⟨_, _, custody, horderly⟩ := hsurvives.custodial
  have htask : task ∈ session.tasks := htasks.mem_iff.mpr List.mem_cons_self
  have hfree := h.free task htask
  have hfits := horderly.fits task htask
  constructor
  · apply horderly.stays custody htask hnext _ h.stored
    exact fun hrunning => hfree (owns_of_running hrunning)
  · intro howns
    cases hcall : task.call with
    | starting request =>
        -- what is created now was not in the store before
        rw [hcall] at hnext
        simp only [Call.next?] at hnext
        split at hnext
        · cases hnext
          cases howns
        · obtain ⟨fresh, host'', -, -, -, hrefused, hcreated⟩ := Handle.create_cases request
            (session.engine.totalSteps request.workflow) session.host
          cases hinsert : (ExecutionStore.insert session.host.store fresh).1 with
          | error cause =>
              simp only [hrefused cause hinsert, Option.some.injEq, Prod.mk.injEq] at hnext
              obtain ⟨rfl, -, -⟩ := hnext
              cases howns
          | ok _ =>
              simp only [hcreated hinsert, Option.some.injEq, Prod.mk.injEq] at hnext
              obtain ⟨rfl, -, -⟩ := hnext
              have hid : fresh.id = header.id := Option.some.inj howns
              have habsent := (LawfulStore.insert_ok hinsert).1
              rw [hid] at habsent
              exact absurd (habsent.symm.trans h.stored) (by simp)
    | created request state =>
        rw [hcall] at hnext hfree
        simp only [Call.next?] at hnext
        split at hnext <;> cases hnext
        · cases howns
        · exact hfree howns
    | resuming request | loading request =>
        rw [hcall] at hnext
        simp only [Call.next?] at hnext
        split at hnext <;> cases hnext <;> cases howns
    | loadingLog request found =>
        simp only [hcall, Fits] at hnext hfits
        obtain ⟨-, execution, hstored, rfl⟩ := hfits
        obtain ⟨-, ⟨outcome, rfl⟩ | ⟨log, workflow, state, cancelled, hprepare, rfl⟩⟩ :=
          Call.loadingLog_cases hnext
        · cases howns
        · obtain ⟨hresume, -, -, hstate⟩ := Call.prepareResume_cases hprepare
          have hid : execution.header.id = header.id := by
            rw [← Option.some.inj howns]
            change execution.header.id = state.header.id
            rw [hstate]
            cases request.input <;> rfl
          have hrequest := (LawfulStore.stored_id hstored).symm.trans hid
          rw [hrequest, h.stored] at hstored
          cases hstored
          simp [ExecutionState.canResume, ExecutionState.status, ExecutionState.ofRecord,
            ExecutionStore.assemble, hpending] at hresume
    | driving scope run =>
        have hholds : task.call.holds? = some run.id := by rw [hcall]; rfl
        have hafter : call.holds? = some header.id := by
          rw [hcall] at hnext
          rcases Call.driving_cases hnext with ⟨-, result, rfl⟩ | ⟨run', cancelled, rfl, -⟩
          · cases howns
          · exact howns
        have hid := horderly.holds_kept custody htask hnext hholds hafter
        rw [hcall] at hfree
        exact hfree (congrArg some hid.symm)
    | ended outcome =>
        rw [hcall] at hnext
        cases hnext

theorem Abandoned.unrun (h : Abandoned header session) :
    ∀ task ∈ session.tasks, task.call.running? ≠ some header.id :=
  fun task htask hrunning => h.free task htask (owns_of_running hrunning)

/-- A record that is abandoned stays as it is. -/
theorem Abandoned.follows (h : Abandoned header session) (hpending : header.status = .pending)
    (hsurvives : Survives (fun _ => True) session) (hfollows : session.Follows later) :
    Abandoned header later := by
  induction hfollows with
  | refl => exact h
  | @step before later hbefore hstep ih =>
      have hsurvives := hsurvives.follows hbefore
      cases hstep with
      | ask request =>
          refine ⟨ih.stored, ?_⟩
          intro task htask
          rcases List.mem_cons.mp htask with rfl | htask
          · cases request <;> exact nofun
          · exact ih.free task htask
      | advance htasks hnext =>
          obtain ⟨hstored, hfree⟩ := ih.advance hpending hsurvives htasks hnext
          refine ⟨hstored, ?_⟩
          intro task htask
          rcases List.mem_cons.mp htask with rfl | htask
          · exact hfree
          · exact ih.free task (htasks.mem_iff.mpr (List.mem_cons_of_mem _ htask))
      | wait time =>
          refine ⟨?_, ih.free⟩
          unfold Session.stored
          rw [Host.waitUntil_store]
          exact ih.stored
      | cancel | register | remove | replace => exact ⟨ih.stored, ih.free⟩
  | drop _ htasks ih =>
      refine ⟨ih.stored, ?_⟩
      intro task htask
      exact ih.free task (htasks.mem_iff.mpr (List.mem_cons_of_mem _ htask))
  | restart _ _ hstore ih =>
      constructor
      · unfold Session.stored
        rw [hstore]
        exact ih.stored
      · intro task htask
        cases htask

end

/-- What a call that created an execution keeps to itself until it runs it: the record, and that nobody
else may write it. -/
private theorem Orderly.created {AtRest : Chronicle → StoredExecution → Prop}
    {InHand : Request → Scope → Run → Chronicle → StoredExecution → Prop} {asked : Request}
    {request : StartRequest} {state : ExecutionState} {others : List Task}
    (h : session.Orderly Kind AtRest InHand)
    (htasks : session.tasks.Perm (⟨asked, .created request state⟩ :: others)) :
    ∃ header : ExecutionHeader, header.IsNew request ∧ state = .ofRecord ⟨header, []⟩ ∧
      session.stored header.id = some ⟨header, []⟩ ∧
      ∀ other ∈ others, other.call.owns? ≠ some header.id := by
  have hperm := h.perm htasks
  have hfits := hperm.fits _ List.mem_cons_self
  simp only [Fits] at hfits
  obtain ⟨-, -, header, hnew, rfl, hstored, -⟩ := hfits
  refine ⟨header, hnew, rfl, hstored, ?_⟩
  intro other hother
  exact ((List.pairwise_cons.mp hperm.apart).1 other hother).2 header.id rfl

/-- Who holds an execution that nobody may write is about to read it. -/
private theorem Orderly.resuming {AtRest : Chronicle → StoredExecution → Prop}
    {InHand : Request → Scope → Run → Chronicle → StoredExecution → Prop} {task : Task}
    {id : ExecutionId} (h : session.Orderly Kind AtRest InHand) (htask : task ∈ session.tasks)
    (hholds : task.call.holds? = some id) (hfree : task.call.owns? ≠ some id) :
    ∃ resume, task.request = .resume resume ∧ resume.id = id := by
  have hfits := h.fits task htask
  unfold Fits at hfits
  cases hcall : task.call with
  | starting | created | resuming | ended =>
      rw [hcall] at hholds
      cases hholds
  | loading request =>
      rw [hcall] at hholds hfits
      exact ⟨request, hfits, Option.some.inj hholds⟩
  | loadingLog request header =>
      rw [hcall] at hholds hfits
      exact ⟨request, hfits.1, Option.some.inj hholds⟩
  | driving scope run =>
      rw [hcall] at hholds hfree
      exact absurd hholds hfree

/-- A call that is refused before it creates an execution has written nothing. -/
private theorem stored_of_refused {request : StartRequest} {cause : EngineError}
    {engine engine' : Engine} {host host' : Host σ}
    (hnext : (Call.starting request).next? engine host =
      some (.ended (.error cause), engine', host')) :
    LawfulStore.stored host'.store = LawfulStore.stored host.store := by
  simp only [Call.next?] at hnext
  split at hnext
  · cases hnext
    rfl
  · obtain ⟨header, host'', -, -, hstore, hrefused, hcreated⟩ :=
      Handle.create_cases request (engine.totalSteps request.workflow) host
    cases hinsert : (ExecutionStore.insert host.store header).1 with
    | error refusal =>
        simp only [hrefused refusal hinsert, Option.some.injEq, Prod.mk.injEq] at hnext
        obtain ⟨-, -, rfl⟩ := hnext
        rw [hstore]
        exact LawfulStore.insert_error hinsert
    | ok _ =>
        simp only [hcreated hinsert, Option.some.injEq, Prod.mk.injEq] at hnext
        cases hnext.1

omit [LawfulStore σ] in
/-- A call that created an execution is refused only as busy, and leaves everything as it is. -/
private theorem created_refused {request : StartRequest} {state : ExecutionState}
    {cause : EngineError} {engine engine' : Engine} {host host' : Host σ}
    (hnext : (Call.created request state).next? engine host =
      some (.ended (.error cause), engine', host')) :
    engine.isActive state.id = true ∧ cause = .executionBusy state.id ∧ engine' = engine ∧
      host' = host := by
  simp only [Call.next?] at hnext
  cases hactivate : engine.activate state.id with
  | ok active =>
      rw [hactivate] at hnext
      cases hnext
  | error busy =>
      rw [hactivate] at hnext
      cases hnext
      obtain ⟨hactive, hbusy⟩ := Engine.activate_error hactivate
      exact ⟨hactive, hbusy, rfl, rfl⟩

/-- A call that is refused when it has created an execution leaves it behind, in the hands of a call
that may not write it. -/
private theorem Orderly.abandoned {AtRest : Chronicle → StoredExecution → Prop}
    {InHand : Request → Scope → Run → Chronicle → StoredExecution → Prop}
    (h : session.Orderly Kind AtRest InHand) {request : StartRequest} {state : ExecutionState}
    {others : List Task} {cause : EngineError} {after : Engine} {host' : Host σ}
    (htasks : session.tasks.Perm (⟨.start request, .created request state⟩ :: others))
    (hnext : (Call.created request state).next? session.engine session.host =
      some (.ended (.error cause), after, host')) :
    ∃ header : ExecutionHeader, state = .ofRecord ⟨header, []⟩ ∧ header.IsNew request ∧
      cause = .executionBusy header.id ∧ session.engine.isActive header.id = true ∧
      Abandoned header ⟨after, host', ⟨.start request, .ended (.error cause)⟩ :: others,
        session.note ⟨.start request, .created request state⟩ (.ended (.error cause))⟩ := by
  obtain ⟨header, hnew, rfl, hstored, hfree⟩ := h.created htasks
  obtain ⟨hactive, rfl, rfl, rfl⟩ := created_refused hnext
  refine ⟨header, rfl, hnew, rfl, hactive, hstored, ?_⟩
  intro task htask
  rcases List.mem_cons.mp htask with rfl | htask
  · intro howns
    cases howns
  · exact hfree task htask

/-- When a call that starts an execution returns an error, whatever else the engine is asked for in the
meantime, then either it has written nothing, or it had created its record when a call that resumes this
very execution already held it. Then the error is that the execution is busy, and the record remains as
it was created, pending, in all that follows, and is never run. While nobody else holds what it created,
a call goes on to run it, and what runs has a result. -/
theorem Follows.refused_start {engine : Engine} {host : Host σ} (hidle : engine.active = [])
    (hempty : ∀ id, LawfulStore.stored host.store id = none)
    (h : Follows { engine, host } session) {request : StartRequest} {call : Call}
    {others : List Task} (htasks : session.tasks.Perm (⟨.start request, call⟩ :: others)) :
    (∀ state, call = .created request state →
      (∀ other ∈ others, other.call.holds? ≠ some state.id) →
      ∃ scope run after host',
        call.next? session.engine session.host = some (.driving scope run, after, host')) ∧
    ∀ (cause : EngineError) (after : Engine) (host' : Host σ),
      call.next? session.engine session.host = some (.ended (.error cause), after, host') →
      (call = .starting request ∧ LawfulStore.stored host'.store = session.stored) ∨
      ∃ header : ExecutionHeader, call = .created request (.ofRecord ⟨header, []⟩) ∧
        header.IsNew request ∧ cause = .executionBusy header.id ∧
        (∃ other ∈ others, ∃ resume, other.request = .resume resume ∧ resume.id = header.id ∧
          other.call.holds? = some header.id) ∧
        ∀ later, Follows ⟨after, host', ⟨.start request, .ended (.error cause)⟩ :: others,
            session.note ⟨.start request, call⟩ (.ended (.error cause))⟩ later →
          later.stored header.id = some ⟨header, []⟩ ∧
          ∀ task ∈ later.tasks, task.call.running? ≠ some header.id := by
  have hfirst : Survives (fun _ : σ => True) { engine, host } := .initial hempty trivial
  have hsurvives := hfirst.follows h
  have hserves := h.serves hfirst (.idle hidle fun call hcall => by cases hcall)
  have hholder : ∀ id, call.holds? = none → session.engine.isActive id = true →
      ∃ other ∈ others, other.call.holds? = some id := by
    intro id hfree hactive
    have hcalls := (Engine.Serves.cons_iff hfree).mp (hserves.perm (htasks.map (·.call)))
    obtain ⟨holder, hmem, hholds⟩ := hcalls.isActive_iff.mp hactive
    obtain ⟨other, hother, rfl⟩ := List.mem_map.mp hmem
    exact ⟨other, hother, hholds⟩
  obtain ⟨_, _, custody, horderly⟩ := hsurvives.custodial
  have hfits := (horderly.perm htasks).fits _ List.mem_cons_self
  constructor
  · rintro state rfl hothers
    cases hactivate : session.engine.activate state.id with
    | error cause =>
        obtain ⟨other, hother, hholds⟩ := hholder state.id rfl (Engine.activate_error hactivate).1
        exact absurd hholds (hothers other hother)
    | ok active =>
        simp only [Call.next?, hactivate]
        exact ⟨_, _, _, _, rfl⟩
  · intro cause after host' hnext
    cases call with
    | starting asked =>
        simp only [Fits] at hfits
        cases hfits
        exact Or.inl ⟨rfl, stored_of_refused hnext⟩
    | created asked state =>
        simp only [Fits] at hfits
        cases hfits.1
        obtain ⟨header, rfl, hnew, rfl, hactive, hleft⟩ := horderly.abandoned htasks hnext
        have hpending : header.status = .pending := by
          obtain ⟨id, steps, time, rfl⟩ := hnew
          rfl
        refine Or.inr ⟨header, rfl, hnew, rfl, ?_, ?_⟩
        · obtain ⟨other, hother, hholds⟩ := hholder header.id rfl hactive
          have hmem := htasks.mem_iff.mpr (List.mem_cons_of_mem _ hother)
          have hfree := hleft.free other (List.mem_cons_of_mem _ hother)
          obtain ⟨resume, hresume, hid⟩ := horderly.resuming hmem hholds hfree
          exact ⟨other, hother, resume, hresume, hid, hholds⟩
        · intro later hlater
          have hrefused := hsurvives.step (.advance htasks hnext)
          have habandoned := hleft.follows hpending hrefused hlater
          exact ⟨habandoned.stored, habandoned.unrun⟩
    | resuming | loading =>
        simp only [Fits] at hfits
        cases hfits
    | loadingLog =>
        simp only [Fits] at hfits
        cases hfits.1
    | driving scope run =>
        rcases Call.driving_next hnext with ⟨-, result, hresult⟩ | ⟨_, _, hdriving, -⟩
        · cases hresult
        · cases hdriving
    | ended => cases hnext

end Session

/-- A fresh execution is in the store, and a call that resumes it has taken its id on. -/
def Sample.claimed : Session (FaultyStore MemoryStore) :=
  ((((session {}).ask (start single)).play 1).ask (resume single)).play 1

theorem Sample.follows_claimed : (session {}).Follows claimed :=
  .play 1 (.step (.play 1 (.step .refl (.ask (start single)))) (.ask (resume single)))

namespace Session

/-- The call that created the execution is refused, and its record stays pending. -/
theorem Follows.refused_start_of_resume :
    ∃ header : ExecutionHeader, header.id = Sample.firstId ∧ header.status = .pending ∧
      ∀ later, Sample.claimed.overtake.Follows later →
        later.stored header.id = some ⟨header, []⟩ := by
  obtain ⟨state, holder, htasks, hid⟩ : ∃ state holder, Sample.claimed.tasks =
      [holder, ⟨Sample.start Sample.single, .created ⟨Sample.single, "user", []⟩ state⟩] ∧
      state.id = Sample.firstId :=
    ⟨_, _, rfl, rfl⟩
  obtain ⟨cause, engine, host, hnext⟩ : ∃ cause engine host,
      (Call.created ⟨Sample.single, "user", []⟩ state).next? Sample.claimed.engine
        Sample.claimed.host = some (.ended (.error cause), engine, host) := by
    refine ⟨.executionBusy state.id, Sample.claimed.engine, Sample.claimed.host, ?_⟩
    rw [Call.next?, hid]
    rfl
  have hperm : Sample.claimed.tasks.Perm
      (⟨Sample.start Sample.single, .created ⟨Sample.single, "user", []⟩ state⟩ :: [holder]) := by
    rw [htasks]
    exact List.Perm.swap _ _ _
  obtain ⟨hstarting, -⟩ | ⟨header, hcreated, hnew, -, -, hleft⟩ :=
    (Follows.refused_start rfl (fun _ => rfl) Sample.follows_claimed hperm).2 cause engine host hnext
  · cases hstarting
  · cases hcreated
    refine ⟨header, hid, ?_, ?_⟩
    · obtain ⟨id, steps, time, rfl⟩ := hnew
      rfl
    · intro later hlater
      rw [overtake_eq htasks hnext] at hlater
      exact (hleft later hlater).1

/-- The call that started the execution is over with an error, and the record it created is there. -/
theorem record_of_refused_start :
    ∃ session, (Sample.session {}).Follows session ∧
      (∃ cause, ⟨Sample.start Sample.single, .ended (.error cause)⟩ ∈ session.tasks) ∧
      (session.stored Sample.firstId).isSome = true := by
  refine ⟨Sample.claimed.overtake, Sample.follows_claimed.overtake, ⟨.executionBusy Sample.firstId, ?_⟩, ?_⟩
  · exact List.mem_cons_self
  · decide

end Session

end WorkflowEngine
