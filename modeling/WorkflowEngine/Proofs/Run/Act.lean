import WorkflowEngine.Run.Step

/-!
What a run can do next, said once. A run moves only by `Run.next?`, and what that function does is
either that the commit on its way takes effect, or an act of the run itself, which leaves the store
alone. Everything a run keeps is proved by cases on these two.

The bus, the supply of identifiers and the counters of the host are not covered: an act tells what
becomes of the run, and under which readings of the store and the clock.
-/
namespace WorkflowEngine

theorem Workflow.node?_id {w : Workflow} {id : NodeId} {node : NodeSpec}
    (h : w.node? id = some node) : node.id = id := by
  have hmatch := List.find?_some h
  exact eq_of_beq hmatch

namespace ExecutionState

variable {state next : ExecutionState}

theorem setStatus_ok {status : ExecutionStatus} (h : state.setStatus status = .ok next) :
    state.status.canBecome status = true ∧
      next = { state with header := { state.header with status } } := by
  unfold setStatus at h
  cases hlegal : state.status.canBecome status with
  | false => simp [hlegal] at h
  | true =>
      simp only [hlegal, if_true, Except.ok.injEq] at h
      exact ⟨rfl, h.symm⟩

theorem fail_ok {message : String} (h : state.fail message = .ok next) :
    state.status.canBecome .failed = true ∧ next = { state with
      header := { state.header with status := .failed, error := some message } } := by
  unfold fail at h
  cases hstatus : state.setStatus .failed with
  | error cause => simp [hstatus, bind, Except.bind] at h
  | ok failed =>
      obtain ⟨hlegal, rfl⟩ := setStatus_ok hstatus
      simp only [hstatus, bind, Except.bind, pure, Except.pure, Except.ok.injEq] at h
      exact ⟨hlegal, h.symm⟩

theorem complete_ok (h : state.complete = .ok next) :
    state.status.canBecome .completed = true ∧ next = { state with
      header := { state.header with status := .completed, error := none } } := by
  unfold complete at h
  cases hstatus : state.setStatus .completed with
  | error cause => simp [hstatus, bind, Except.bind] at h
  | ok completed =>
      obtain ⟨hlegal, rfl⟩ := setStatus_ok hstatus
      simp only [hstatus, bind, Except.bind, pure, Except.pure, Except.ok.injEq] at h
      exact ⟨hlegal, h.symm⟩

end ExecutionState

/-- Is a run dropped for this, by a cancellation or by its deadline? -/
def EngineError.isInterruption : EngineError → Bool
  | .timeout _ => true
  | .cancelled _ => true
  | _ => false

namespace Behaviour

/-- What a call comes to, if it answers at all. -/
def answer? : Behaviour → Option NodeResult
  | .answer result => some result
  | .emit _ rest => rest.answer?
  | .sleep _ rest => rest.answer?
  | .hang _ => none

end Behaviour

namespace Host

variable {σ : Type}

/-- Only events, identifiers and counters differ. -/
def Alike (host other : Host σ) : Prop := other.store = host.store ∧ other.now = host.now

theorem Alike.refl (host : Host σ) : host.Alike host := ⟨rfl, rfl⟩

theorem Alike.trans {first second third : Host σ} (h : first.Alike second)
    (h' : second.Alike third) : first.Alike third :=
  ⟨h'.1.trans h.1, h'.2.trans h.2⟩

end Host

namespace Run

/-- An interruption is no failure that is recorded already. -/
theorem not_recorded {cause : EngineError} (h : cause.isInterruption = true) :
    isRecorded cause = false := by
  cases cause <;> first | rfl | cases h

/-- What follows the success of a commit. -/
def Purpose.next : Purpose → Stage
  | .entry => .dispatching
  | .completion .. => .dispatching
  | .pause _ => .finished (.ok .paused)
  | .failure cause => .aborting (.execution cause)
  | .conclusion => .finished (.ok .completed)
  | .abort cause => .finished (.error cause)

/-- What the success of a commit adds to the queue. -/
def Purpose.successors : Purpose → List NodeId
  | .completion _ successors _ => successors
  | _ => []

/-- What follows the refusal of a commit. -/
def Purpose.refused : Purpose → EngineError → Stage
  | .abort cause, _ => .finished (.error cause)
  | _, error => .aborting error

/-- Does the status allow what the stage is about to do? -/
def Legal (run : Run) : Prop :=
  match run.stage with
  | .entering => run.state.status.canBecome .running = true
  | .dispatching => run.state.status = .running
  | .executing _ => run.state.status = .running
  | _ => True

/-- A commit a run asks for, and what becomes of the run with it. -/
structure Demand where
  state : ExecutionState
  checkpoint : Option Checkpoint
  queue : List NodeId
  dispatched : List NodeId
  purpose : Purpose

/-- A node that fails: its id and name, the queue left to the run, and the continuation. -/
inductive Fails (scope : Scope) (run : Run) :
    NodeId → String → List NodeId → List NodeId → Prop
  | unknown {nodeId pending} (hstage : run.stage = .dispatching)
      (hqueue : run.queue = nodeId :: pending) (hnew : nodeId ∉ run.dispatched)
      (hnode : scope.workflow.node? nodeId = none) :
      Fails scope run nodeId nodeId pending pending
  | missing {node pending} (hstage : run.stage = .dispatching)
      (hqueue : run.queue = node.id :: pending) (hnew : node.id ∉ run.dispatched)
      (hnode : scope.workflow.node? node.id = some node) (htrigger : scope.isTrigger node = false)
      (hexecutor : scope.registry.get? node.nodeType = none) :
      Fails scope run node.id node.displayName pending
        (pending ++ scope.workflow.successors node.id none)
  | failed {call} (hstage : run.stage = .executing call) :
      Fails scope run call.node.id call.node.displayName run.queue
        (call.pending ++ scope.workflow.successors call.node.id none)

/-- The state after a node succeeded, before it is made durable. -/
def succeeded (run : Run) (outcome : NodeOutcome) : ExecutionState :=
  (run.state.setContext outcome.context).incrementStep

/-- When a run asks for a commit, and for which. -/
inductive Demands (scope : Scope) (run : Run) : Demand → Prop
  | entry {state} (hstage : run.stage = .entering)
      (hstate : run.state.setStatus .running = .ok state) :
      Demands scope run ⟨state, none, run.queue, run.dispatched, .entry⟩
  | conclusion {state} (hstage : run.stage = .dispatching) (hqueue : run.queue = [])
      (hstate : run.state.complete = .ok state) :
      Demands scope run ⟨state, none, run.queue, run.dispatched, .conclusion⟩
  | failure {nodeId name queue continuation state message retryable} (id : Uuid)
      (time : Timestamp) (hfails : run.Fails scope nodeId name queue continuation)
      (hstate : run.state.fail message = .ok state) :
      Demands scope run
        ⟨state, some (run.state.newCheckpoint id time nodeId name continuation (some message)),
          queue, run.dispatched, .failure ⟨scope.workflow.id, nodeId, message, retryable⟩⟩
  | completion {call outcome} (id : Uuid) (time : Timestamp) (durationMs : Nat)
      (hstage : run.stage = .executing call) (hanswer : call.rest.answer? = some (.ok outcome))
      (hpause : outcome.isPause = false) :
      Demands scope run
        ⟨run.succeeded outcome,
          some ((run.succeeded outcome).newCheckpoint id time call.node.id call.node.displayName
            (call.pending ++ followed scope call.node outcome) none),
          run.queue, call.node.id :: run.dispatched,
          .completion call.node.id (followed scope call.node outcome) durationMs⟩
  | pause {call outcome state} (id : Uuid) (time : Timestamp)
      (hstage : run.stage = .executing call) (hanswer : call.rest.answer? = some (.ok outcome))
      (hpause : outcome.isPause = true)
      (hstate : (run.succeeded outcome).setStatus .paused = .ok state) :
      Demands scope run
        ⟨state,
          some (state.newCheckpoint id time call.node.id call.node.displayName
            (call.pending ++ followed scope call.node outcome) none),
          run.queue, call.node.id :: run.dispatched, .pause call.node.id⟩
  | abandonment {cause state} (hstage : run.stage = .aborting cause)
      (hrecorded : isRecorded cause = false) (hstate : run.state.fail cause.message = .ok state) :
      Demands scope run ⟨state, none, run.queue, run.dispatched, .abort cause⟩

/-- What is asked for differs from the working copy in what changes in memory only. -/
theorem Demands.state_eq {scope : Scope} {run : Run} {demand : Demand}
    (h : run.Demands scope demand) :
    ∃ status context step error, demand.state = { run.state with
      header := { run.state.header with status, context, currentStep := step, error } } := by
  cases h with
  | entry _ hstate => exact ⟨_, _, _, _, (ExecutionState.setStatus_ok hstate).2⟩
  | conclusion _ _ hstate => exact ⟨_, _, _, _, (ExecutionState.complete_ok hstate).2⟩
  | failure _ _ _ hstate => exact ⟨_, _, _, _, (ExecutionState.fail_ok hstate).2⟩
  | completion => exact ⟨_, _, _, _, rfl⟩
  | pause _ _ _ _ _ hstate => exact ⟨_, _, _, _, (ExecutionState.setStatus_ok hstate).2⟩
  | abandonment _ _ hstate => exact ⟨_, _, _, _, (ExecutionState.fail_ok hstate).2⟩

/-- A checkpoint is asked for at the end of the log. -/
theorem Demands.sequence_eq {scope : Scope} {run : Run} {demand : Demand}
    (h : run.Demands scope demand) {checkpoint : Checkpoint}
    (hcheckpoint : demand.checkpoint = some checkpoint) :
    checkpoint.sequence = run.state.header.checkpointCount := by
  cases h with
  | entry | conclusion | abandonment => cases hcheckpoint
  | failure | completion =>
      cases hcheckpoint
      rfl
  | pause _ _ _ _ _ hstate =>
      cases hcheckpoint
      rw [(ExecutionState.setStatus_ok hstate).2]
      rfl

variable {σ : Type} [ExecutionStore σ]

/-- What a run does itself. -/
inductive Act (scope : Scope) (run : Run) (host : Host σ) : Run → Prop
  | interrupt (cause : EngineError) (hopen : run.isInterruptible = true)
      (hcause : cause.isInterruption = true) :
      Act scope run host { (run.withState run.state.discardUncommitted) with
        stage := .settling cause
        cancelled := true
        attentive := 0 }
  | ask {demand : Demand} {flight : Flight} (time : Timestamp)
      (hdemand : run.Demands scope demand)
      (hcommit : flight.commit = demand.state.commit demand.checkpoint time)
      (houtcome : flight.outcome = none)
      (htime : run.isInterruptible = true → host.now < run.deadlineAt) :
      Act scope run host { run with
        handle := ⟨demand.state, some flight⟩
        queue := demand.queue
        dispatched := demand.dispatched
        stage := .committing demand.purpose }
  | skip {nodeId pending} (hstage : run.stage = .dispatching)
      (hqueue : run.queue = nodeId :: pending)
      (hpass : nodeId ∈ run.dispatched ∨
        ∃ node, scope.workflow.node? nodeId = some node ∧ scope.isTrigger node = true) :
      Act scope run host { run with queue := pending }
  | call {node pending executor call} (earlier : Nat) (hstage : run.stage = .dispatching)
      (hqueue : run.queue = node.id :: pending) (hnew : node.id ∉ run.dispatched)
      (hnode : scope.workflow.node? node.id = some node) (htrigger : scope.isTrigger node = false)
      (hexecutor : scope.registry.get? node.nodeType = some executor)
      (hcall : call.node = node) (hpending : call.pending = pending)
      (hrest : call.rest = executor.execute (run.nodeContext scope node earlier)) :
      Act scope run host { run with queue := pending, stage := .executing call }
  | unfold {call call' attentive} (hstage : run.stage = .executing call)
      (hnode : call'.node = call.node) (hpending : call'.pending = call.pending)
      (hrest : call'.rest.answer? = call.rest.answer?) :
      Act scope run host { run with stage := .executing call', attentive }
  | settle {purpose flight} (hstage : run.stage = .committing purpose)
      (hflight : run.handle.flight = some flight) (houtcome : flight.outcome = some (.ok ())) :
      Act scope run host { run with
        handle := ⟨run.state.committed flight.commit, none⟩
        queue := run.queue ++ purpose.successors
        stage := purpose.next }
  | refuse {purpose flight cause} (hstage : run.stage = .committing purpose)
      (hflight : run.handle.flight = some flight)
      (houtcome : flight.outcome = some (.error cause)) :
      Act scope run host { run with
        handle := ⟨run.state, none⟩
        stage := purpose.refused (.store cause) }
  | compare {cause} (hstage : run.stage = .settling cause)
      (hidle : ∀ flight, run.handle.flight = some flight → flight.outcome ≠ none)
      (hlevel : ∀ stored, ExecutionStore.loadHeader host.store run.id = .ok (some stored) →
        run.state.isBehind stored = false) :
      Act scope run host { run with handle := ⟨run.state, none⟩, stage := .aborting cause }
  | fallBehind {cause stored} (hstage : run.stage = .settling cause)
      (hidle : ∀ flight, run.handle.flight = some flight → flight.outcome ≠ none)
      (hload : ExecutionStore.loadHeader host.store run.id = .ok (some stored))
      (hbehind : run.state.isBehind stored = true) :
      Act scope run host
        { run with handle := ⟨run.state, none⟩, stage := .catchingUp cause stored }
  | adopt {cause stored tail} (hstage : run.stage = .catchingUp cause stored)
      (hload : ExecutionStore.loadCheckpoints host.store run.id
        run.state.header.checkpointCount = .ok tail) :
      Act scope run host { run with
        handle := { run.handle with state := run.state.adopt stored tail }
        stage := .aborting cause }
  | stayBehind {cause stored} (hstage : run.stage = .catchingUp cause stored)
      (hload : ∀ tail, ExecutionStore.loadCheckpoints host.store run.id
        run.state.header.checkpointCount ≠ .ok tail) :
      Act scope run host { run with stage := .aborting cause }
  | close {cause} (hstage : run.stage = .aborting cause)
      (hclosed : isRecorded cause = true ∨ run.state.status.canBecome .failed = false) :
      Act scope run host { run with stage := .finished (.error cause) }
  | stray {run' : Run} (hillegal : ¬run.Legal) : Act scope run host run'

/-- The commit on its way takes effect, or is refused. -/
inductive Lands (run : Run) (host : Host σ) : Run → Host σ → Prop
  | intro {flight : Flight} {host' : Host σ} (hflight : run.handle.flight = some flight)
      (houtcome : flight.outcome = none)
      (hstore : host'.store = (ExecutionStore.commit host.store flight.commit).2) :
      Lands run host
        { run with handle := { run.handle with flight := some { flight with
            outcome := some (ExecutionStore.commit host.store flight.commit).1 } } } host'

variable {scope : Scope} {run : Run} {host : Host σ}

/-- A run keeps its deadline. -/
theorem Act.clock {run' : Run} (h : run.Act scope host run') (hlegal : run.Legal) :
    run'.startedAt = run.startedAt ∧ run'.deadlineMs = run.deadlineMs := by
  cases h with
  | stray hillegal => exact absurd hlegal hillegal
  | _ => exact ⟨rfl, rfl⟩

theorem Lands.clock {run' : Run} {host' : Host σ} (h : run.Lands host run' host') :
    run'.startedAt = run.startedAt ∧ run'.deadlineMs = run.deadlineMs := by
  cases h
  exact ⟨rfl, rfl⟩

omit [ExecutionStore σ] in
theorem takeCheckpoint_eq (handle : Handle) (nodeId : NodeId) (name : String)
    (pending : List NodeId) (error : Option String) (host : Host σ) :
    ∃ id time host', handle.takeCheckpoint nodeId name pending error host =
        (handle.state.newCheckpoint id time nodeId name pending error, host') ∧
      host.Alike host' :=
  ⟨_, _, _, rfl, rfl, rfl⟩

private theorem commit_eq (run : Run) (checkpoint : Option Checkpoint) (purpose : Purpose)
    (host : Host σ) :
    ∃ (flight : Flight) (time : Timestamp) (host' : Host σ),
      run.commit checkpoint purpose host =
        ({ run with handle := ⟨run.state, some flight⟩, stage := .committing purpose }, host') ∧
      flight.commit = run.state.commit checkpoint time ∧ flight.outcome = none ∧
      host.Alike host' :=
  ⟨_, _, _, rfl, rfl, rfl, rfl, rfl⟩

/-- What `next?` does, without its host. -/
private abbrev Acts (scope : Scope) (run : Run) (host : Host σ) (result : Run × Host σ) : Prop :=
  host.Alike result.2 ∧ run.Act scope host result.1

/-- A commit may be asked for on another host than the one the step began with. -/
private theorem acts_commit {host' : Host σ} (demand : Demand) (handle : Handle)
    (hhost : host.Alike host') (hdemand : run.Demands scope demand)
    (hstate : handle.state = demand.state)
    (htime : run.isInterruptible = true → host.now < run.deadlineAt) :
    Acts scope run host
      (Run.commit { run with
        handle, queue := demand.queue, dispatched := demand.dispatched }
        demand.checkpoint demand.purpose host') := by
  obtain ⟨flight, time, after, heq, hcommit, houtcome, hafter⟩ :=
    commit_eq { run with handle, queue := demand.queue, dispatched := demand.dispatched }
      demand.checkpoint demand.purpose host'
  rw [heq]
  change flight.commit = handle.state.commit demand.checkpoint time at hcommit
  change Acts scope run host
    ({ run with
        handle := ⟨handle.state, some flight⟩, queue := demand.queue
        dispatched := demand.dispatched, stage := .committing demand.purpose }, after)
  rw [hstate] at hcommit ⊢
  exact ⟨hhost.trans hafter, .ask time hdemand hcommit houtcome htime⟩

private theorem fail_of_running {state : ExecutionState} (message : String)
    (hstatus : state.status = .running) : ∃ next, state.fail message = .ok next := by
  simp [ExecutionState.fail, ExecutionState.setStatus, hstatus, ExecutionStatus.canBecome, bind,
    Except.bind, pure, Except.pure]

private theorem acts_failNode {host : Host σ} {nodeId : NodeId} {name : String}
    {queue continuation : List NodeId} (message : String) (retryable : Bool)
    (hfails : run.Fails scope nodeId name queue continuation)
    (htime : run.isInterruptible = true → host.now < run.deadlineAt) :
    Acts scope run host
      (Run.failNode { run with queue } scope nodeId name continuation message retryable host) := by
  unfold failNode
  obtain ⟨id, time, after, heq, hafter⟩ := takeCheckpoint_eq run.handle nodeId name continuation
    (some message) host
  rw [heq]
  cases hstate : run.handle.state.fail message with
  | error cause =>
      simp only [state, hstate]
      refine ⟨hafter, .stray ?_⟩
      intro hlegal
      have hrunning : run.state.status = .running := by
        cases hfails <;> simpa [Legal, *] using hlegal
      obtain ⟨next, hnext⟩ := fail_of_running message hrunning
      exact absurd (hstate.symm.trans hnext) (by simp)
  | ok state =>
      simp only [Run.state, hstate]
      have hdemand : run.Demands scope ⟨state,
          some (run.state.newCheckpoint id time nodeId name continuation (some message)), queue,
          run.dispatched, .failure ⟨scope.workflow.id, nodeId, message, retryable⟩⟩ :=
        .failure id time hfails hstate
      exact acts_commit _ ⟨state, run.handle.flight⟩ hafter hdemand rfl htime

private theorem acts_dispatch (hstage : run.stage = .dispatching)
    (htime : run.isInterruptible = true → host.now < run.deadlineAt) :
    Acts scope run host (run.dispatch scope host) := by
  unfold dispatch
  cases hqueue : run.queue with
  | nil =>
      cases hstate : run.state.complete with
      | error cause =>
          refine ⟨.refl host, .stray ?_⟩
          intro hlegal
          simp only [Legal, hstage] at hlegal
          simp [ExecutionState.complete, ExecutionState.setStatus, hlegal,
            ExecutionStatus.canBecome, bind, Except.bind, pure, Except.pure] at hstate
      | ok state =>
          exact acts_commit _ ⟨state, run.handle.flight⟩ (.refl host)
            (Demands.conclusion hstage hqueue hstate) rfl htime
  | cons nodeId pending =>
      by_cases hseen : nodeId ∈ run.dispatched
      · simp only [hseen, if_true]
        exact ⟨.refl host, .skip hstage hqueue (Or.inl hseen)⟩
      · simp only [hseen, if_false]
        cases hnode : scope.workflow.node? nodeId with
        | none =>
            exact acts_failNode _ _ (.unknown hstage hqueue hseen hnode) htime
        | some node =>
            obtain rfl := Workflow.node?_id hnode
            cases htrigger : scope.isTrigger node with
            | true =>
                simp only [htrigger, if_true]
                exact ⟨.refl host, .skip hstage hqueue (Or.inr ⟨node, hnode, htrigger⟩)⟩
            | false =>
                simp only [htrigger, Bool.false_eq_true, if_false]
                cases hexecutor : scope.registry.get? node.nodeType with
                | none =>
                    exact acts_failNode _ _
                      (.missing hstage hqueue hseen hnode htrigger hexecutor) htime
                | some executor =>
                    exact ⟨⟨rfl, rfl⟩,
                      .call _ hstage hqueue hseen hnode htrigger hexecutor rfl rfl rfl⟩

private theorem acts_record {call : NodeCall} {result : NodeResult}
    (hstage : run.stage = .executing call)
    (hanswer : ∀ outcome, result = .ok outcome → call.rest.answer? = some (.ok outcome))
    (htime : run.isInterruptible = true → host.now < run.deadlineAt) :
    Acts scope run host (run.record scope call result host) := by
  unfold record
  cases result with
  | error error => exact acts_failNode _ _ (.failed hstage) htime
  | ok outcome =>
      have hok := hanswer outcome rfl
      cases hpause : outcome.isPause with
      | false =>
          simp only [hpause, Bool.false_eq_true, if_false]
          obtain ⟨id, time, after, heq, hafter⟩ := takeCheckpoint_eq
            ⟨run.succeeded outcome, run.handle.flight⟩ call.node.id call.node.displayName
            (call.pending ++ followed scope call.node outcome) none host
          have hdemand : run.Demands scope _ :=
            .completion id time (after.now - call.startedAt) hstage hok hpause
          have hacts := acts_commit _ ⟨run.succeeded outcome, run.handle.flight⟩ hafter
            hdemand rfl htime
          simp only [succeeded, Run.state] at heq hacts
          simp only [withState, Run.state, heq]
          exact hacts
      | true =>
          simp only [hpause, if_true]
          cases hstate : (run.succeeded outcome).setStatus .paused with
          | error cause =>
              simp only [succeeded, Run.state] at hstate
              simp only [withState, Run.state, hstate]
              refine ⟨.refl host, .stray ?_⟩
              intro hlegal
              simp only [Legal, hstage, Run.state, ExecutionState.status] at hlegal
              simp [ExecutionState.setStatus, ExecutionState.setContext,
                ExecutionState.incrementStep, ExecutionState.status, hlegal,
                ExecutionStatus.canBecome] at hstate
          | ok state =>
              obtain ⟨id, time, after, heq, hafter⟩ := takeCheckpoint_eq
                ⟨state, run.handle.flight⟩ call.node.id call.node.displayName
                (call.pending ++ followed scope call.node outcome) none host
              have hdemand : run.Demands scope _ := .pause id time hstage hok hpause hstate
              have hacts := acts_commit _ ⟨state, run.handle.flight⟩ hafter hdemand rfl htime
              simp only [succeeded, Run.state] at hstate
              simp only [withState, Run.state, hstate, heq]
              exact hacts

private theorem acts_goOn {call : NodeCall} {result : Run × Host σ}
    (hstage : run.stage = .executing call)
    (htime : run.isInterruptible = true → host.now < run.deadlineAt)
    (h : run.goOn? scope call host = some result) : Acts scope run host result := by
  have hexpire : ∀ result, (expired? call host).map
      (fun error => run.record scope call (.error error) host) = some result →
      Acts scope run host result := by
    intro result hresult
    obtain ⟨error, -, rfl⟩ := Option.map_eq_some_iff.mp hresult
    exact acts_record hstage (by simp) htime
  unfold goOn? at h
  by_cases hearly : host.now < call.resumesAt
  · simp only [hearly, if_true] at h
    exact hexpire _ h
  · simp only [hearly, if_false] at h
    cases hrest : call.rest with
    | answer answer =>
        simp only [hrest, Option.some.injEq] at h
        rw [← h]
        refine acts_record hstage ?_ htime
        rintro outcome rfl
        rw [hrest]
        rfl
    | emit event rest =>
        simp only [hrest, Option.some.injEq] at h
        rw [← h]
        exact ⟨⟨rfl, rfl⟩, .unfold hstage rfl rfl (by rw [hrest]; rfl)⟩
    | sleep ms rest =>
        simp only [hrest, Option.some.injEq] at h
        rw [← h]
        exact ⟨.refl host, .unfold hstage rfl rfl (by rw [hrest]; rfl)⟩
    | hang attentive =>
        simp only [hrest] at h
        split at h
        · simp only [Option.some.injEq] at h
          rw [← h]
          have hact : run.Act scope host { run with stage := .executing call, attentive := 1 } :=
            .unfold hstage rfl rfl rfl
          rw [← hstage] at hact
          exact ⟨.refl host, hact⟩
        · exact hexpire _ h

private theorem acts_settle {purpose : Run.Purpose} {result : Run × Host σ}
    (hstage : run.stage = .committing purpose) (h : run.settle? purpose host = some result) :
    Acts scope run host result := by
  unfold settle? at h
  cases hflight : run.handle.flight with
  | none => simp [Handle.answered?, hflight] at h
  | some flight =>
      cases houtcome : flight.outcome with
      | none => simp [Handle.answered?, hflight, houtcome] at h
      | some outcome =>
          by_cases hdone : flight.answersAt ≤ host.now
          · cases outcome with
            | ok _ =>
                have hact : run.Act scope host _ := .settle hstage hflight houtcome
                simp only [Handle.answered?, hflight, houtcome, hdone, Handle.settle,
                  Option.bind_eq_bind, Option.bind_some, if_true, Option.some.injEq] at h
                rw [← h]
                cases purpose <;>
                  simp only [Purpose.next, Purpose.successors, List.append_nil] at hact <;>
                  exact ⟨⟨rfl, rfl⟩, hact⟩
            | error cause =>
                have hact : run.Act scope host _ := .refuse hstage hflight houtcome
                simp only [Handle.answered?, hflight, houtcome, hdone, Handle.settle,
                  Option.bind_eq_bind, Option.bind_some, if_true, Option.some.injEq] at h
                rw [← h]
                cases purpose <;> exact ⟨⟨rfl, rfl⟩, hact⟩
          · simp [Handle.answered?, hflight, houtcome, hdone] at h

/-- A handle that is not busy has no commit on its way whose outcome is open. -/
private theorem outcome_of_idle {handle : Handle} {now : Nat} (h : handle.isBusy now = false)
    {flight : Flight} (hflight : handle.flight = some flight) : flight.outcome ≠ none := by
  intro houtcome
  simp [Handle.isBusy, Handle.answered?, hflight, houtcome] at h

private theorem act_compare {cause : EngineError} (hstage : run.stage = .settling cause)
    (hidle : run.handle.isBusy host.now = false) :
    run.Act scope host ({ run with handle := run.handle.clear }.compare cause host) := by
  have hflight : ∀ flight, run.handle.flight = some flight → flight.outcome ≠ none :=
    fun _ => outcome_of_idle hidle
  unfold compare Handle.ahead?
  simp only [Handle.clear]
  cases hload : ExecutionStore.loadHeader host.store run.handle.state.id with
  | error e =>
      refine .compare hstage hflight ?_
      intro stored hstored
      exact absurd (hload.symm.trans hstored) (by simp)
  | ok found =>
      cases found with
      | none =>
          refine .compare hstage hflight ?_
          intro stored hstored
          exact absurd (hload.symm.trans hstored) (by simp)
      | some stored =>
          cases hbehind : run.handle.state.isBehind stored with
          | false =>
              simp only [hbehind]
              refine .compare hstage hflight ?_
              intro other hother
              have heq : stored = other := by simpa using hload.symm.trans hother
              exact heq ▸ hbehind
          | true =>
              simp only [hbehind, if_true]
              exact .fallBehind hstage hflight hload hbehind

private theorem act_catchUp {cause : EngineError} {stored : ExecutionHeader}
    (hstage : run.stage = .catchingUp cause stored) :
    run.Act scope host (run.catchUp cause stored host) := by
  unfold catchUp Handle.takeOver
  cases hload : ExecutionStore.loadCheckpoints host.store run.handle.state.id
      run.handle.state.header.checkpointCount with
  | error e =>
      refine .stayBehind hstage ?_
      intro tail htail
      exact absurd (hload.symm.trans htail) (by simp)
  | ok tail => exact .adopt hstage hload

private theorem acts_abort {cause : EngineError} (hstage : run.stage = .aborting cause)
    (htime : run.isInterruptible = true → host.now < run.deadlineAt) :
    Acts scope run host (run.abort cause host) := by
  unfold abort
  cases hrecorded : isRecorded cause with
  | true => exact ⟨⟨rfl, rfl⟩, .close hstage (Or.inl hrecorded)⟩
  | false =>
      simp only [Bool.false_eq_true, if_false]
      cases hstate : run.state.fail cause.message with
      | error _ =>
          refine ⟨⟨rfl, rfl⟩, .close hstage (Or.inr ?_)⟩
          cases hlegal : run.state.status.canBecome .failed with
          | false => rfl
          | true =>
              simp [ExecutionState.fail, ExecutionState.setStatus, hlegal, bind, Except.bind, pure,
                Except.pure] at hstate
      | ok state =>
          exact acts_commit _ ⟨state, run.handle.flight⟩ (.refl host)
            (.abandonment hstage hrecorded hstate) rfl htime

private theorem acts_step {result : Run × Host σ}
    (htime : run.isInterruptible = true → host.now < run.deadlineAt)
    (h : run.step? scope host = some result) : Acts scope run host result := by
  unfold step? at h
  cases hstage : run.stage with
  | entering =>
      simp only [hstage] at h
      cases hstate : run.state.setStatus .running with
      | error cause =>
          simp only [hstate, Option.some.injEq] at h
          rw [← h]
          refine ⟨.refl host, .stray ?_⟩
          intro hlegal
          simp only [Legal, hstage] at hlegal
          simp [ExecutionState.setStatus, hlegal] at hstate
      | ok state =>
          simp only [hstate, Option.some.injEq] at h
          rw [← h]
          exact acts_commit _ ⟨state, run.handle.flight⟩ (.refl host) (.entry hstage hstate) rfl
            htime
  | dispatching =>
      simp only [hstage, Option.some.injEq] at h
      rw [← h]
      exact acts_dispatch hstage htime
  | executing call =>
      simp only [hstage] at h
      exact acts_goOn hstage htime h
  | committing purpose =>
      simp only [hstage] at h
      exact acts_settle hstage h
  | settling cause =>
      simp only [hstage] at h
      cases hbusy : run.handle.isBusy host.now with
      | true => simp [hbusy] at h
      | false =>
          simp only [hbusy, Bool.false_eq_true, if_false, Option.some.injEq] at h
          rw [← h]
          exact ⟨.refl host, act_compare hstage hbusy⟩
  | catchingUp cause stored =>
      simp only [hstage, Option.some.injEq] at h
      rw [← h]
      exact ⟨.refl host, act_catchUp hstage⟩
  | aborting cause =>
      simp only [hstage, Option.some.injEq] at h
      rw [← h]
      exact acts_abort hstage htime
  | finished result => simp [hstage] at h

omit [ExecutionStore σ] in
private theorem interruption?_cases {cause : EngineError}
    (h : run.interruption? host = some cause) :
    run.isInterruptible = true ∧ cause.isInterruption = true := by
  unfold interruption? at h
  cases hopen : run.isInterruptible with
  | false => simp [hopen] at h
  | true =>
      simp only [hopen, Bool.not_true, Bool.false_eq_true, if_false] at h
      split at h
      · cases h
        exact ⟨rfl, rfl⟩
      · split at h
        · cases h
          exact ⟨rfl, rfl⟩
        · cases h

/-- Whatever a run does next, it takes no time, and either the commit on its way takes effect or the
store is left alone. -/
theorem next?_cases {run' : Run} {host' : Host σ} (h : run.next? scope host = some (run', host')) :
    host'.now = host.now ∧
      (run.Lands host run' host' ∨ host'.store = host.store ∧ run.Act scope host run') := by
  unfold next? at h
  cases hcause : run.interruption? host with
  | some cause =>
      simp only [hcause, Option.some.injEq] at h
      obtain ⟨hopen, hdropped⟩ := interruption?_cases hcause
      cases h
      exact ⟨rfl, Or.inr ⟨rfl, .interrupt cause hopen hdropped⟩⟩
  | none =>
      simp only [hcause] at h
      have htime : run.isInterruptible = true → host.now < run.deadlineAt := by
        intro hopen
        by_cases hlate : run.deadlineAt ≤ host.now
        · cases hcancelled : run.cancelled <;>
            simp [interruption?, hopen, hcancelled, hlate] at hcause
        · omega
      cases hland : run.land? host with
      | none =>
          rw [hland] at h
          change run.step? scope host = some (run', host') at h
          obtain ⟨⟨hstore, hnow⟩, hact⟩ := acts_step htime h
          exact ⟨hnow, Or.inr ⟨hstore, hact⟩⟩
      | some landed =>
          rw [hland] at h
          cases h
          unfold land? Handle.land? at hland
          cases hflight : run.handle.flight with
          | none => simp [hflight] at hland
          | some flight =>
              cases houtcome : flight.outcome with
              | some _ => simp [hflight, houtcome] at hland
              | none =>
                  by_cases hdue : flight.landsAt ≤ host.now
                  · simp [hflight, houtcome, hdue, Handle.land] at hland
                    obtain ⟨rfl, rfl⟩ := hland
                    exact ⟨rfl, Or.inl (.intro hflight houtcome rfl)⟩
                  · simp [hflight, houtcome, hdue] at hland

end Run

end WorkflowEngine
