import Mathlib.Data.List.Pairwise
import Mathlib.Logic.Relation
import WorkflowEngine.Proofs.Session.Custody

/-!
The part of a history in which one call runs an execution. Whatever else goes on, the record of that
execution changes by the commits of its run only; so what the run keeps of it by its own acts, and
when its commits take effect, it keeps through the whole part.
-/
namespace WorkflowEngine

theorem Host.waitUntil_store {σ : Type} (host : Host σ) (time : Nat) :
    (host.waitUntil time).store = host.store := by
  -- Without unfolding, the two hosts are compared first, and their clocks.
  unfold Host.waitUntil
  rfl

theorem Host.waitUntil_bus {σ : Type} (host : Host σ) (time : Nat) :
    (host.waitUntil time).bus = host.bus := by
  unfold Host.waitUntil
  rfl

namespace Call

variable {σ : Type} [ExecutionStore σ] {call : Call} {engine engine' : Engine}
  {host host' : Host σ}

/-- A call that runs an execution tells its result, or goes on with the run. -/
theorem driving_next {scope : Scope} {run : Run}
    (h : (Call.driving scope run).next? engine host = some (call, engine', host')) :
    (host' = host ∧ ∃ result, call = .ended (.ok result)) ∨
    ∃ run' cancelled, call = .driving scope run' ∧ Run.result? { run with cancelled } = none ∧
      Run.next? { run with cancelled } scope host = some (run', host') := by
  simp only [next?] at h
  generalize (run.cancelled || engine.isCancelled run.id) = cancelled at h
  cases hresult : ({ run with cancelled } : Run).result? with
  | some result =>
      simp only [hresult, Option.some.injEq, Prod.mk.injEq] at h
      obtain ⟨rfl, -, rfl⟩ := h
      exact Or.inl ⟨rfl, _, rfl⟩
  | none =>
      simp only [hresult, Option.map_eq_some_iff] at h
      obtain ⟨⟨run', host''⟩, hrun, hnext⟩ := h
      simp only [Prod.mk.injEq] at hnext
      obtain ⟨rfl, -, rfl⟩ := hnext
      exact Or.inr ⟨run', cancelled, rfl, hresult, hrun⟩

/-- The run of a call moves as runs do. -/
theorem driving_cases {scope : Scope} {run : Run}
    (h : (Call.driving scope run).next? engine host = some (call, engine', host')) :
    (host' = host ∧ ∃ result, call = .ended (.ok result)) ∨
    ∃ run' cancelled, call = .driving scope run' ∧
      (Run.Lands { run with cancelled } host run' host' ∨
        host'.store = host.store ∧ Run.Act scope { run with cancelled } host run') := by
  rcases driving_next h with hended | ⟨run', cancelled, hcall, -, hrun⟩
  · exact Or.inl hended
  · exact Or.inr ⟨run', cancelled, hcall, (Run.next?_cases hrun).2⟩

/-- A call that has read the header of an execution is refused, or begins to run what it reads. -/
theorem loadingLog_cases {request : ResumeRequest} {header : ExecutionHeader}
    (h : (Call.loadingLog request header).next? engine host = some (call, engine', host')) :
    host'.store = host.store ∧
      ((∃ outcome, call = .ended outcome) ∨
        ∃ log workflow state cancelled,
          prepareResume engine request (.ofRecord (ExecutionStore.assemble header log)) =
            .ok (workflow, state) ∧
          call = .driving (scopeOf engine workflow)
            (Run.start (scopeOf engine workflow) state cancelled host).1) := by
  simp only [next?] at h
  cases hload : ExecutionStore.loadCheckpoints host.store request.id 0 with
  | error cause =>
      simp only [hload, Option.some.injEq, Prod.mk.injEq] at h
      obtain ⟨rfl, -, rfl⟩ := h
      exact ⟨rfl, Or.inl ⟨_, rfl⟩⟩
  | ok log =>
      simp only [hload] at h
      cases hprepare : prepareResume engine request
          (.ofRecord (ExecutionStore.assemble header log)) with
      | error cause =>
          simp only [hprepare, Option.some.injEq, Prod.mk.injEq] at h
          obtain ⟨rfl, -, rfl⟩ := h
          exact ⟨rfl, Or.inl ⟨_, rfl⟩⟩
      | ok prepared =>
          obtain ⟨workflow, state⟩ := prepared
          simp only [hprepare, Option.some.injEq, Prod.mk.injEq] at h
          obtain ⟨rfl, -, rfl⟩ := h
          exact ⟨rfl, Or.inr ⟨log, workflow, state, _, hprepare, rfl⟩⟩

/-- A call writes to the store by putting a new execution into it, or by a commit of its run. -/
theorem next?_store (h : call.next? engine host = some (call', engine', host')) :
    host'.store = host.store ∨
    (∃ request header, call = .starting request ∧ header.IsNew request ∧
      host'.store = (ExecutionStore.insert host.store header).2) ∨
    ∃ scope run run' cancelled, call = .driving scope run ∧ call' = .driving scope run' ∧
      Run.Lands { run with cancelled } host run' host' := by
  cases call with
  | starting request =>
      simp only [next?] at h
      split at h
      · cases h
        exact Or.inl rfl
      · obtain ⟨header, host'', hnew, -, hstore, hrefused, hcreated⟩ :=
          Handle.create_cases request (engine.totalSteps request.workflow) host
        refine Or.inr (Or.inl ⟨request, header, rfl, hnew, ?_⟩)
        cases hinsert : (ExecutionStore.insert host.store header).1 with
        | error cause =>
            simp only [hrefused cause hinsert, Option.some.injEq, Prod.mk.injEq] at h
            obtain ⟨-, -, rfl⟩ := h
            exact hstore
        | ok _ =>
            simp only [hcreated hinsert, Option.some.injEq, Prod.mk.injEq] at h
            obtain ⟨-, -, rfl⟩ := h
            exact hstore
  | created request state =>
      simp only [next?] at h
      split at h <;> cases h <;> exact Or.inl rfl
  | resuming request =>
      simp only [next?] at h
      split at h <;> cases h <;> exact Or.inl rfl
  | loading request =>
      simp only [next?] at h
      split at h <;> cases h <;> exact Or.inl rfl
  | loadingLog request header => exact Or.inl (loadingLog_cases h).1
  | ended outcome => cases h
  | driving scope run =>
      rcases driving_cases h with ⟨rfl, -⟩ | ⟨run', cancelled, hcall, hlands | ⟨hstore, -⟩⟩
      · exact Or.inl rfl
      · exact Or.inr (Or.inr ⟨scope, run, run', cancelled, rfl, hcall, hlands⟩)
      · exact Or.inl hstore

end Call

namespace Session

variable {σ : Type} [ExecutionStore σ]

/-- Does one of the calls run this execution? -/
def Drives (session : Session σ) (id : ExecutionId) : Prop :=
  ∃ task ∈ session.tasks, task.call.running? = some id

/-- A history through which a call runs an execution. Once it is over, another call takes some steps
before it runs the execution again. -/
def Driven (id : ExecutionId) : Session σ → Session σ → Prop :=
  Relation.ReflTransGen fun session later => session.Step later ∧ later.Drives id

instance (session : Session σ) (id : ExecutionId) : Decidable (session.Drives id) :=
  inferInstanceAs (Decidable (∃ task ∈ session.tasks, task.call.running? = some id))

/-- What the call made last does first, before it goes on for some more steps. -/
theorem play_succ (fuel : Nat) (session : Session σ) :
    session.play (fuel + 1) = (session.play 1).play fuel := by
  simp only [play]
  cases htasks : session.tasks with
  | nil => cases fuel <;> simp [play, htasks]
  | cons task others =>
      cases hnext : task.call.next? session.engine session.host with
      | some next => simp only [hnext]
      | none =>
          cases hwakes : task.call.wakesAt? with
          | some time => simp only [hnext, hwakes]
          | none => cases fuel <;> simp [play, htasks, hnext, hwakes]

theorem step_play (session : Session σ) :
    session.play 1 = session ∨ session.Step (session.play 1) := by
  simp only [play]
  cases htasks : session.tasks with
  | nil => exact Or.inl rfl
  | cons task others =>
      cases hnext : task.call.next? session.engine session.host with
      | some next =>
          simp only [hnext]
          exact Or.inr (.advance (List.Perm.of_eq htasks) hnext)
      | none =>
          cases hwakes : task.call.wakesAt? with
          | some time =>
              simp only [hnext, hwakes]
              have hstep : session.Step { session with host := session.host.waitUntil time } :=
                .wait time
              rw [htasks] at hstep
              exact Or.inr hstep
          | none =>
              simp only [hnext, hwakes]
              exact Or.inl trivial

theorem Driven.play {id : ExecutionId} (fuel : Nat) {session : Session σ}
    (h : ∀ steps < fuel + 1, (session.play steps).Drives id) :
    Driven id session (session.play fuel) := by
  induction fuel generalizing session with
  | zero => exact .refl
  | succ fuel ih =>
      have hlater : ∀ steps < fuel + 1, ((session.play 1).play steps).Drives id := by
        intro steps hsteps
        rw [← play_succ]
        exact h (steps + 1) (by omega)
      rw [play_succ]
      rcases step_play session with hsame | hstep
      · rw [hsame] at hlater ⊢
        exact ih hlater
      · have hdrives := h 1 (by omega)
        exact .head ⟨hstep, hdrives⟩ (ih hlater)

variable [LawfulStore σ] {Kind : σ → Prop} {AtRest : Chronicle → StoredExecution → Prop}
  {InHand : Request → Scope → Run → Chronicle → StoredExecution → Prop}
  {session later : Session σ} {id : ExecutionId} {execution : StoredExecution}

namespace Orderly

/-- What is known of the store besides. -/
theorem withKind {Kind' : σ → Prop} (h : session.Orderly Kind AtRest InHand)
    (hkind : Kind' session.host.store) : session.Orderly Kind' AtRest InHand :=
  { h with kind := hkind }

/-- Only one call holds an execution. -/
theorem sole (h : session.Orderly Kind AtRest InHand) {task other : Task}
    (htask : task ∈ session.tasks) (hother : other ∈ session.tasks)
    (hholds : task.call.holds? = some id) (hholds' : other.call.holds? = some id) :
    other = task := by
  by_contra hne
  have hsymm : Std.Symm Task.Apart := ⟨fun _ _ => Task.Apart.symm⟩
  have hapart : Task.Apart other task := h.apart.forall hother htask hne
  exact hapart.1 id hholds' hholds

/-- A call leaves alone what is stored and what it does not run. -/
theorem stays (custody : Custody Kind AtRest InHand) (h : session.Orderly Kind AtRest InHand)
    {task : Task} (htask : task ∈ session.tasks) {call : Call} {engine : Engine} {host : Host σ}
    (hnext : task.call.next? session.engine session.host = some (call, engine, host))
    (hother : task.call.running? ≠ some id) (hstored : session.stored id = some execution) :
    LawfulStore.stored host.store id = some execution := by
  rcases Call.next?_store hnext with
    hstore | ⟨request, header, -, -, hstore⟩ | ⟨scope, run, run', cancelled, hcall, -, hlands⟩
  · rw [hstore]
    exact hstored
  · rw [hstore]
    cases hinsert : (ExecutionStore.insert session.host.store header).1 with
    | error cause => rwa [LawfulStore.insert_error hinsert]
    | ok _ =>
        obtain ⟨habsent, hafter⟩ := LawfulStore.insert_ok hinsert
        have hne : id ≠ header.id := by
          rintro rfl
          exact absurd (habsent.symm.trans hstored) (by simp)
        rw [hafter, Function.update_of_ne hne]
        exact hstored
  · obtain ⟨found, hfound, hinHand⟩ := h.driven htask hcall
    obtain ⟨-, after, hafter, -⟩ :=
      custody.land (custody.attend cancelled hinHand) h.kind hfound hlands
    have hne : id ≠ run.id := by
      rintro rfl
      rw [hcall] at hother
      exact hother rfl
    rw [hafter]
    exact (Function.update_of_ne hne _ _).trans hstored

/-- A call leaves alone what is stored and what it does not hold. -/
theorem frame (custody : Custody Kind AtRest InHand) (h : session.Orderly Kind AtRest InHand)
    {task : Task} (htask : task ∈ session.tasks) {call : Call} {engine : Engine} {host : Host σ}
    (hnext : task.call.next? session.engine session.host = some (call, engine, host))
    (hother : task.call.holds? ≠ some id) (hstored : session.stored id = some execution) :
    LawfulStore.stored host.store id = some execution :=
  h.stays custody htask hnext (fun hrunning => hother (holds_of_running hrunning)) hstored

/-- In a step through which a call runs an execution, its run moves, or time passes, or another call
goes on that does not hold the execution. -/
theorem follow (custody : Custody Kind AtRest InHand) (h : session.Orderly Kind AtRest InHand)
    (hstep : session.Step later) {request : Request} {scope : Scope} {run : Run}
    (htask : ⟨request, .driving scope run⟩ ∈ session.tasks) (hdrives : later.Drives run.id) :
    (∃ run' cancelled, ⟨request, .driving scope run'⟩ ∈ later.tasks ∧
      Run.result? { run with cancelled } = none ∧
      Run.next? { run with cancelled } scope session.host = some (run', later.host)) ∨
    ⟨request, .driving scope run⟩ ∈ later.tasks ∧
      ((later.host = session.host ∨ ∃ time, later.host = session.host.waitUntil time) ∨
        ∃ task ∈ session.tasks, ∃ call,
          task.call.next? session.engine session.host = some (call, later.engine, later.host) ∧
          task.call.holds? ≠ some run.id ∧ call.holds? ≠ some run.id) := by
  have hlater := h.step custody hstep
  cases hstep with
  | ask asked => exact Or.inr ⟨List.mem_cons_of_mem _ htask, Or.inl (Or.inl rfl)⟩
  | wait time => exact Or.inr ⟨htask, Or.inl (Or.inr ⟨time, rfl⟩)⟩
  | cancel | register | remove => exact Or.inr ⟨htask, Or.inl (Or.inl rfl)⟩
  | replace engine hover =>
      obtain ⟨outcome, hended⟩ := hover _ htask
      cases hended
  | @advance stepped others call engine host hperm hnext =>
      by_cases hsame : stepped = ⟨request, .driving scope run⟩
      · subst hsame
        rcases Call.driving_next hnext with
          ⟨-, result, rfl⟩ | ⟨run', cancelled, rfl, hopen, hmoves⟩
        · obtain ⟨other, hother, hrunning⟩ := hdrives
          rcases List.mem_cons.mp hother with rfl | hother
          · cases hrunning
          · have hapart := (List.pairwise_cons.mp (h.perm hperm).apart).1 other hother
            have hfree := hapart.1 run.id rfl
            exact absurd (holds_of_running hrunning) hfree
        · exact Or.inl ⟨run', cancelled, List.mem_cons_self, hopen, hmoves⟩
      · have hother : ⟨request, .driving scope run⟩ ∈ others := by
          rcases List.mem_cons.mp (hperm.mem_iff.mp htask) with hfirst | hother
          · exact absurd hfirst.symm hsame
          · exact hother
        have hstepped : stepped ∈ session.tasks := hperm.mem_iff.mpr List.mem_cons_self
        refine Or.inr ⟨List.mem_cons_of_mem _ hother, Or.inr ⟨stepped, hstepped, call, hnext, ?_, ?_⟩⟩
        · intro hholds
          exact hsame (h.sole htask hstepped rfl hholds)
        · intro hholds
          have hapart := (List.pairwise_cons.mp hlater.apart).1 _ hother
          exact hapart.1 run.id hholds rfl

/-- In a step through which a call runs an execution, its run moves, or its record stays. -/
theorem drive (custody : Custody Kind AtRest InHand) (h : session.Orderly Kind AtRest InHand)
    (hstep : session.Step later) {request : Request} {scope : Scope} {run : Run}
    (htask : ⟨request, .driving scope run⟩ ∈ session.tasks)
    (hstored : session.stored run.id = some execution) (hdrives : later.Drives run.id) :
    ∃ run', ⟨request, .driving scope run'⟩ ∈ later.tasks ∧
      (run' = run ∧ later.stored run.id = some execution ∨
        ∃ cancelled, Run.Lands { run with cancelled } session.host run' later.host ∨
          later.host.store = session.host.store ∧
            Run.Act scope { run with cancelled } session.host run') := by
  rcases h.follow custody hstep htask hdrives with
    ⟨run', cancelled, hrun, -, hmoves⟩ | ⟨hrun, hidle⟩
  · exact ⟨run', hrun, Or.inr ⟨cancelled, (Run.next?_cases hmoves).2⟩⟩
  · refine ⟨run, hrun, Or.inl ⟨rfl, ?_⟩⟩
    rcases hidle with (hhost | ⟨time, hhost⟩) | ⟨task, htask, call, hnext, hother, -⟩
    · unfold stored
      rw [hhost]
      exact hstored
    · unfold stored
      rw [hhost, Host.waitUntil_store]
      exact hstored
    · exact h.frame custody htask hnext hother hstored

end Orderly

/-- What a run keeps of its record by its own acts and by its commits, it keeps as long as its call
goes on. -/
theorem Driven.keeps (custody : Custody Kind AtRest InHand)
    (Keeps : Scope → Run → StoredExecution → Prop)
    (attend : ∀ {scope run execution} (cancelled : Bool),
      Keeps scope run execution → Keeps scope { run with cancelled } execution)
    (act : ∀ {scope run run'} {host : Host σ} {execution}, Keeps scope run execution → run.Legal →
      LawfulStore.stored host.store run.id = some execution → run.Act scope host run' →
      Keeps scope run' execution)
    (land : ∀ {scope run run'} {host host' : Host σ} {execution after},
      Keeps scope run execution → Kind host.store →
      LawfulStore.stored host.store run.id = some execution → run.Lands host run' host' →
      LawfulStore.stored host'.store run.id = some after → Keeps scope run' after)
    (h : session.Orderly Kind AtRest InHand) {request : Request} {scope : Scope} {run : Run}
    (htask : ⟨request, .driving scope run⟩ ∈ session.tasks)
    (hstored : session.stored run.id = some execution) (hkeeps : Keeps scope run execution)
    (hdriven : Driven run.id session later) :
    later.Orderly Kind AtRest InHand ∧ ∃ run' after,
      ⟨request, .driving scope run'⟩ ∈ later.tasks ∧ run'.id = run.id ∧
        later.stored run.id = some after ∧ Keeps scope run' after := by
  induction hdriven with
  | refl => exact ⟨h, run, execution, htask, rfl, hstored, hkeeps⟩
  | tail _ hstep ih =>
      obtain ⟨horderly, run', after, htask', hid, hstored', hkeeps'⟩ := ih
      obtain ⟨hstep, hdrives⟩ := hstep
      refine ⟨horderly.step custody hstep, ?_⟩
      rw [← hid] at hstored' hdrives
      obtain ⟨found, hfound, hinHand⟩ := horderly.driven htask' rfl
      obtain rfl : after = found := Option.some.inj (hstored'.symm.trans hfound)
      obtain ⟨next, hnext, ⟨rfl, hsame⟩ | ⟨cancelled, hlands | ⟨hstore, hact⟩⟩⟩ :=
        horderly.drive custody hstep htask' hstored' hdrives
      · exact ⟨_, _, hnext, hid, hid ▸ hsame, hkeeps'⟩
      · have hattend := custody.attend cancelled hinHand
        obtain ⟨hnextId, landed, hlanded, -⟩ :=
          custody.land hattend horderly.kind hstored' hlands
        have hafter := (congrFun hlanded _).trans (Function.update_self ..)
        refine ⟨next, landed, hnext, hnextId.trans hid, ?_, ?_⟩
        · rw [← hid]
          exact hafter
        · exact land (attend cancelled hkeeps') horderly.kind hstored' hlands hafter
      · have hattend := custody.attend cancelled hinHand
        have hstarted : run'.startedAt ≤ _ := (horderly.fits _ htask').1
        obtain ⟨hnextId, -⟩ := custody.act hattend horderly.kind hstarted hstored' hact
        refine ⟨next, after, hnext, hnextId.trans hid, ?_, ?_⟩
        · rw [← hid]
          exact (congrArg (LawfulStore.stored · run'.id) hstore).trans hstored'
        · exact act (attend cancelled hkeeps') (custody.legal hattend) hstored' hact

end Session

end WorkflowEngine
