import WorkflowEngine.Proofs.Run.Act

/-!
What a run announces, said once. Between two of its states a run publishes what `Run.Speaks` says of
them: the start of a node when it is called, the node's own events while it is called, the result of a
node when its commit is settled, and the end of the run when it is over. Anything else is silent.
-/
namespace WorkflowEngine

theorem Host.announce_sent {σ : Type} (host : Host σ) (event : Timestamp → ExecutionEvent) :
    ∃ time, (host.announce event).bus.sent = event time :: host.bus.sent :=
  ⟨_, rfl⟩

namespace Run

/-- What the end of a run has to say of an error. -/
def complaint? : Except EngineError ExecutionStatus → Option String
  | .ok _ => none
  | .error cause => some cause.message

/-- What is published while a run goes from one state to the next, oldest first. -/
def Speaks (run run' : Run) (told : List ExecutionEvent) : Prop :=
  match run.stage, run'.stage with
  | .dispatching, .executing call =>
    ∃ time, told = [.nodeStarted run'.id call.node.id call.node.nodeType time]
  | .executing call, .executing _ =>
    told = [] ∨ ∃ event time, told = [.nodeEvent run'.id call.node.id event time]
  | .committing (.completion nodeId _ durationMs), .dispatching =>
    ∃ time,
      told = [.nodeCompleted run'.id nodeId run'.state.header.currentStep durationMs time]
  | .committing (.failure failure), .aborting (.execution _) =>
    ∃ time, told = [.nodeFailed run'.id failure.nodeId failure.message time]
  | .committing (.pause nodeId), .finished result =>
    ∃ time durationMs later, told =
      [.nodePaused run'.id nodeId run'.state.header.currentStep time,
        .workflowFinished run'.id run'.state.status durationMs (complaint? result) later]
  | _, .finished result =>
    ∃ durationMs time,
      told = [.workflowFinished run'.id run'.state.status durationMs (complaint? result) time]
  | _, _ => told = []

/-- A run speaks of its own execution only. -/
theorem Speaks.executionId {run run' : Run} {told : List ExecutionEvent} (h : run.Speaks run' told) :
    ∀ event ∈ told, event.executionId = run'.id := by
  unfold Speaks at h
  split at h
  · obtain ⟨time, rfl⟩ := h
    simp [ExecutionEvent.executionId]
  · obtain rfl | ⟨event, time, rfl⟩ := h <;> simp [ExecutionEvent.executionId]
  · obtain ⟨time, rfl⟩ := h
    simp [ExecutionEvent.executionId]
  · obtain ⟨time, rfl⟩ := h
    simp [ExecutionEvent.executionId]
  · obtain ⟨time, durationMs, later, rfl⟩ := h
    simp [ExecutionEvent.executionId]
  · obtain ⟨durationMs, time, rfl⟩ := h
    simp [ExecutionEvent.executionId]
  · rw [h]
    simp

/-- A run that waits for a commit, or settles one, has said nothing of it. -/
theorem Speaks.silent {run run' : Run} {told : List ExecutionEvent} (h : run.Speaks run' told)
    (hstage : (∃ purpose, run'.stage = .committing purpose) ∨ ∃ cause, run'.stage = .settling cause) :
    told = [] := by
  unfold Speaks at h
  rcases hstage with ⟨purpose, hstage⟩ | ⟨cause, hstage⟩
  all_goals
    rw [hstage] at h
    split at h <;> first | cases ‹Stage.committing _ = _› | cases ‹Stage.settling _ = _› | exact h

variable {σ : Type} {scope : Scope} {run : Run} {host : Host σ}

/-- What a step publishes. -/
private def Utters (run : Run) (host : Host σ) (result : Run × Host σ) : Prop :=
  ∃ told, result.2.bus.sent = told.reverse ++ host.bus.sent ∧ run.Speaks result.1 told

private theorem utters_silent {result : Run × Host σ} (hbus : result.2.bus = host.bus)
    (hspeaks : run.Speaks result.1 []) : Utters run host result := by
  refine ⟨[], ?_, hspeaks⟩
  rw [hbus]
  rfl

/-- The end of a run is published, and nothing else, unless the run was to be paused. -/
private theorem utters_finish {settled : Run} {result : Except EngineError ExecutionStatus}
    (hpause : ∀ nodeId, run.stage ≠ .committing (.pause nodeId)) :
    Utters run host (settled.finish result host) := by
  obtain ⟨time, hsent⟩ := host.announce_sent
    (.workflowFinished settled.id settled.state.status (host.now - settled.startedAt)
      (complaint? result))
  refine ⟨[.workflowFinished settled.id settled.state.status (host.now - settled.startedAt)
      (complaint? result) time], ?_, ?_⟩
  · cases result <;> exact hsent
  · unfold Speaks finish setStage
    cases hstage : run.stage with
    | committing purpose =>
        cases purpose with
        | pause nodeId => exact absurd hstage (hpause nodeId)
        | entry | completion | failure | conclusion | abort => exact ⟨_, time, rfl⟩
    | entering | dispatching | executing | settling | catchingUp | aborting | finished =>
        exact ⟨_, time, rfl⟩

/-- A run that asks for a commit says nothing yet, nor does one that cannot go on. -/
private theorem speaks_asking {run' : Run} (hidle : ∀ purpose, run.stage ≠ .committing purpose)
    (hstage : (∃ purpose, run'.stage = .committing purpose) ∨ ∃ cause, run'.stage = .aborting cause) :
    run.Speaks run' [] := by
  unfold Speaks
  cases hbefore : run.stage with
  | committing other => exact absurd hbefore (hidle other)
  | entering | dispatching | executing | settling | catchingUp | aborting | finished =>
      rcases hstage with ⟨purpose, hstage⟩ | ⟨cause, hstage⟩ <;> simp [hstage]

variable [ExecutionStore σ]

private theorem failNode_silent (run : Run) (scope : Scope) (nodeId : NodeId) (name : String)
    (pending : List NodeId) (message : String) (retryable : Bool) (host : Host σ) :
    let result := run.failNode scope nodeId name pending message retryable host
    result.2.bus = host.bus ∧
      ((∃ purpose, result.1.stage = .committing purpose) ∨
        ∃ cause, result.1.stage = .aborting cause) := by
  unfold failNode
  cases hstate : run.state.fail message with
  | error cause => exact ⟨rfl, Or.inr ⟨cause, rfl⟩⟩
  | ok state => exact ⟨rfl, Or.inl ⟨_, rfl⟩⟩

private theorem utters_dispatch (hstage : run.stage = .dispatching) :
    Utters run host (run.dispatch scope host) := by
  have hidle : ∀ purpose, run.stage ≠ .committing purpose := by simp [hstage]
  unfold dispatch
  cases hqueue : run.queue with
  | nil =>
      cases hstate : run.state.complete with
      | error cause => exact utters_silent rfl (speaks_asking hidle (Or.inr ⟨cause, rfl⟩))
      | ok state => exact utters_silent rfl (speaks_asking hidle (Or.inl ⟨_, rfl⟩))
  | cons nodeId pending =>
      have hskip : run.Speaks { run with queue := pending } [] := by simp [Speaks, hstage]
      by_cases hseen : nodeId ∈ run.dispatched
      · simp only [hseen, if_true]
        exact utters_silent rfl hskip
      · simp only [hseen, if_false]
        cases hnode : scope.workflow.node? nodeId with
        | none =>
            obtain ⟨hbus, hasks⟩ := failNode_silent _ _ _ _ _ _ _ host
            exact utters_silent hbus (speaks_asking hidle hasks)
        | some node =>
            cases htrigger : scope.isTrigger node with
            | true =>
                simp only [htrigger, if_true]
                exact utters_silent rfl hskip
            | false =>
                simp only [htrigger, Bool.false_eq_true, if_false]
                cases hexecutor : scope.registry.get? node.nodeType with
                | none =>
                    obtain ⟨hbus, hasks⟩ := failNode_silent _ _ _ _ _ _ _ host
                    exact utters_silent hbus (speaks_asking hidle hasks)
                | some executor =>
                    refine ⟨[.nodeStarted run.id node.id node.nodeType _], rfl, ?_⟩
                    unfold Speaks
                    rw [hstage]
                    exact ⟨_, rfl⟩

private theorem utters_record {call : NodeCall} {result : NodeResult}
    (hstage : run.stage = .executing call) : Utters run host (run.record scope call result host) := by
  have hidle : ∀ purpose, run.stage ≠ .committing purpose := by simp [hstage]
  unfold record
  cases result with
  | error error =>
      obtain ⟨hbus, hasks⟩ := failNode_silent _ _ _ _ _ _ _ host
      exact utters_silent hbus (speaks_asking hidle hasks)
  | ok outcome =>
      cases hpause : outcome.isPause with
      | false =>
          simp only [hpause, Bool.false_eq_true, if_false]
          exact utters_silent rfl (speaks_asking hidle (Or.inl ⟨_, rfl⟩))
      | true =>
          simp only [hpause, if_true]
          cases hstate : ExecutionState.setStatus
              (run.withState (run.state.setContext outcome.context).incrementStep).state .paused with
          | error cause =>
              simp only [withState, Run.state] at hstate ⊢
              simp only [hstate]
              exact utters_silent rfl (speaks_asking hidle (Or.inr ⟨cause, rfl⟩))
          | ok state =>
              simp only [withState, Run.state] at hstate ⊢
              simp only [hstate]
              exact utters_silent rfl (speaks_asking hidle (Or.inl ⟨_, rfl⟩))

private theorem utters_goOn {call : NodeCall} {result : Run × Host σ}
    (hstage : run.stage = .executing call) (h : run.goOn? scope call host = some result) :
    Utters run host result := by
  have hexpire : (expired? call host).map
      (fun error => run.record scope call (.error error) host) = some result →
      Utters run host result := by
    intro hresult
    obtain ⟨error, -, rfl⟩ := Option.map_eq_some_iff.mp hresult
    exact utters_record hstage
  unfold goOn? at h
  by_cases hearly : host.now < call.resumesAt
  · simp only [hearly, if_true] at h
    exact hexpire h
  · simp only [hearly, if_false] at h
    cases hrest : call.rest with
    | answer answer =>
        simp only [hrest, Option.some.injEq] at h
        rw [← h]
        exact utters_record hstage
    | emit event rest =>
        simp only [hrest, Option.some.injEq] at h
        rw [← h]
        refine ⟨[.nodeEvent run.id call.node.id event _], rfl, ?_⟩
        unfold Speaks
        rw [hstage]
        exact Or.inr ⟨event, _, rfl⟩
    | sleep ms rest =>
        simp only [hrest, Option.some.injEq] at h
        rw [← h]
        apply utters_silent rfl
        unfold Speaks
        rw [hstage]
        exact Or.inl rfl
    | hang attentive =>
        simp only [hrest] at h
        split at h
        · simp only [Option.some.injEq] at h
          rw [← h]
          apply utters_silent rfl
          simp [Speaks, hstage]
        · exact hexpire h

omit [ExecutionStore σ] in
private theorem utters_settle {purpose : Purpose} {result : Run × Host σ}
    (hstage : run.stage = .committing purpose) (h : run.settle? purpose host = some result) :
    Utters run host result := by
  unfold settle? at h
  obtain ⟨⟨commit, outcome⟩, -, h⟩ := Option.bind_eq_some_iff.mp h
  cases outcome with
  | ok _ =>
      simp only [Handle.settle, Option.some.injEq] at h
      rw [← h]
      cases purpose with
      | entry =>
          apply utters_silent rfl
          simp [Speaks, hstage, proceed, setStage]
      | completion nodeId successors durationMs =>
          refine ⟨[.nodeCompleted _ nodeId _ durationMs _], rfl, ?_⟩
          unfold Speaks
          rw [hstage]
          exact ⟨_, rfl⟩
      | pause nodeId =>
          refine ⟨[.nodePaused _ nodeId _ _, .workflowFinished _ _ _ _ _], rfl, ?_⟩
          unfold Speaks
          rw [hstage]
          exact ⟨_, _, _, rfl⟩
      | failure failure =>
          refine ⟨[.nodeFailed _ failure.nodeId failure.message _], rfl, ?_⟩
          unfold Speaks
          rw [hstage]
          exact ⟨_, rfl⟩
      | conclusion => exact utters_finish (by simp [hstage])
      | abort cause => exact utters_finish (by simp [hstage])
  | error cause =>
      simp only [Handle.settle, Option.some.injEq] at h
      rw [← h]
      cases purpose with
      | abort cause => exact utters_finish (by simp [hstage])
      | entry | completion | pause | failure | conclusion =>
          apply utters_silent rfl
          simp [Speaks, hstage, giveUp, setStage]

private theorem utters_step {result : Run × Host σ} (hopen : run.result? = none)
    (h : run.step? scope host = some result) : Utters run host result := by
  unfold step? at h
  cases hstage : run.stage with
  | entering =>
      have hidle : ∀ purpose, run.stage ≠ .committing purpose := by simp [hstage]
      simp only [hstage] at h
      cases hstate : run.state.setStatus .running with
      | error cause =>
          simp only [hstate, Option.some.injEq] at h
          rw [← h]
          exact utters_silent rfl (speaks_asking hidle (Or.inr ⟨cause, rfl⟩))
      | ok state =>
          simp only [hstate, Option.some.injEq] at h
          rw [← h]
          exact utters_silent rfl (speaks_asking hidle (Or.inl ⟨_, rfl⟩))
  | dispatching =>
      simp only [hstage, Option.some.injEq] at h
      rw [← h]
      exact utters_dispatch hstage
  | executing call =>
      simp only [hstage] at h
      exact utters_goOn hstage h
  | committing purpose =>
      simp only [hstage] at h
      exact utters_settle hstage h
  | settling cause =>
      simp only [hstage] at h
      split at h
      · cases h
      · simp only [Option.some.injEq] at h
        rw [← h]
        apply utters_silent rfl
        unfold compare
        split <;> simp [Speaks, hstage, setStage]
  | catchingUp cause stored =>
      simp only [hstage, Option.some.injEq] at h
      rw [← h]
      apply utters_silent rfl
      unfold catchUp
      split <;> simp [Speaks, hstage, setStage]
  | aborting cause =>
      have hidle : ∀ purpose, run.stage ≠ .committing purpose := by simp [hstage]
      simp only [hstage, Option.some.injEq] at h
      rw [← h]
      unfold abort
      split
      · exact utters_finish (by simp [hstage])
      · split
        · exact utters_finish (by simp [hstage])
        · exact utters_silent rfl (speaks_asking hidle (Or.inl ⟨_, rfl⟩))
  | finished result => simp [result?, hstage] at hopen

/-- Whatever a run does next, it publishes what its states tell. -/
theorem next?_speaks {run' : Run} {host' : Host σ} (hopen : run.result? = none)
    (h : run.next? scope host = some (run', host')) :
    ∃ told, host'.bus.sent = told.reverse ++ host.bus.sent ∧ run.Speaks run' told := by
  unfold next? at h
  cases hcause : run.interruption? host with
  | some cause =>
      simp only [hcause, Option.some.injEq] at h
      cases h
      have hsilent : Utters run host (run.interrupt cause host) := by
        apply utters_silent rfl
        cases hstage : run.stage <;> simp [Speaks, interrupt, hstage]
      exact hsilent
  | none =>
      simp only [hcause] at h
      cases hland : run.land? host with
      | none =>
          rw [hland] at h
          exact utters_step hopen h
      | some landed =>
          rw [hland] at h
          cases h
          obtain ⟨⟨handle, _⟩, hland, ⟨⟩⟩ := Option.map_eq_some_iff.mp hland
          obtain ⟨flight, -, hland⟩ := Option.bind_eq_some_iff.mp hland
          have hsilent : Utters run host ({ run with handle }, host') := by
            apply utters_silent
            · split at hland <;> cases hland
              rfl
            · cases hstage : run.stage <;> simp [Speaks, hstage]
              simp [result?, hstage] at hopen
          exact hsilent

end Run

end WorkflowEngine
