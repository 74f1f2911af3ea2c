import WorkflowEngine.Run.Step
import WorkflowEngine.State.Operation

/-!
# Runs over another store

What a run does depends on the store only through what it reads, how long a commit takes, and what the
store answers. Over a store that tells the same, a run takes the same step; only the effect of a commit
is left to the stores themselves.
-/
namespace WorkflowEngine

section

variable {σ τ : Type} [ExecutionStore σ] [ExecutionStore τ]

/-- One store tells what another does. -/
structure Tells (store : σ) (other : τ) : Prop where
  loadHeader : ∀ id, ExecutionStore.loadHeader other id = ExecutionStore.loadHeader store id
  loadCheckpoints : ∀ id start,
    ExecutionStore.loadCheckpoints other id start = ExecutionStore.loadCheckpoints store id start
  latency : ExecutionStore.latency other = ExecutionStore.latency store

theorem Tells.refl (store : σ) : Tells store store := ⟨fun _ => rfl, fun _ _ => rfl, rfl⟩

theorem Tells.load {store : σ} {other : τ} (tells : Tells store other) (id : ExecutionId) :
    ExecutionStore.load other id = ExecutionStore.load store id := by
  rw [ExecutionStore.load, ExecutionStore.load, tells.loadHeader, tells.loadCheckpoints]

end

variable {σ τ : Type}

/-- The host with another store in place of its own. -/
def Host.over (host : Host σ) (store : τ) : Host τ := { host with store }

/-- A result that comes with a host, over another store. -/
def Host.carry {α : Type} (store : τ) (result : α × Host σ) : α × Host τ :=
  (result.1, result.2.over store)

open Host

section

variable {host : Host σ} {store : τ}

namespace Run

theorem proceed_over (run : Run) (purpose : Purpose) :
    run.proceed purpose (host.over store) = carry store (run.proceed purpose host) := by
  cases purpose <;> rfl

theorem giveUp_over (run : Run) (purpose : Purpose) (error : EngineError) :
    run.giveUp purpose error (host.over store) = carry store (run.giveUp purpose error host) := by
  cases purpose <;> rfl

theorem settle?_over (run : Run) (purpose : Purpose) :
    run.settle? purpose (host.over store) = (run.settle? purpose host).map (carry store) := by
  unfold settle?
  change (run.handle.answered? host.now).bind _ = _
  cases run.handle.answered? host.now with
  | none => rfl
  | some answer =>
    obtain ⟨commit, outcome⟩ := answer
    cases outcome with
    | ok _ => exact congrArg some (proceed_over _ purpose)
    | error e => exact congrArg some (giveUp_over _ purpose _)

end Run

end

variable [ExecutionStore σ] [ExecutionStore τ] {host : Host σ} {store : τ}

theorem Handle.persist_over (tells : Tells host.store store) (handle : Handle)
    (checkpoint : Option Checkpoint) :
    handle.persist checkpoint (host.over store) = carry store (handle.persist checkpoint host) := by
  unfold Handle.persist
  change (handle.send _ host.now (ExecutionStore.latency store), _) = _
  rw [tells.latency]
  rfl

namespace Run

variable {scope : Scope} {run : Run}

theorem commit_over (tells : Tells host.store store) (checkpoint : Option Checkpoint) (purpose : Purpose) :
    run.commit checkpoint purpose (host.over store) =
      carry store (run.commit checkpoint purpose host) := by
  rw [commit, Handle.persist_over tells]
  rfl

/-- A checkpoint is taken and committed. -/
theorem commit_taken_over (tells : Tells host.store store) (handle : Handle) (nodeId : NodeId)
    (nodeName : String) (pending : List NodeId) (error : Option String) (purpose : Purpose) :
    (match handle.takeCheckpoint nodeId nodeName pending error (host.over store) with
      | (checkpoint, host) => run.commit (some checkpoint) purpose host) =
      carry store (match handle.takeCheckpoint nodeId nodeName pending error host with
        | (checkpoint, host) => run.commit (some checkpoint) purpose host) := by
  have taken : Tells (handle.takeCheckpoint nodeId nodeName pending error host).2.store store := tells
  exact commit_over taken _ purpose

theorem failNode_over (tells : Tells host.store store) (nodeId : NodeId) (nodeName : String)
    (pending : List NodeId) (message : String) (retryable : Bool) :
    run.failNode scope nodeId nodeName pending message retryable (host.over store) =
      carry store (run.failNode scope nodeId nodeName pending message retryable host) := by
  unfold failNode
  cases run.state.fail message with
  | error cause => rfl
  | ok state => exact commit_taken_over tells ..

theorem dispatch_over (tells : Tells host.store store) :
    run.dispatch scope (host.over store) = carry store (run.dispatch scope host) := by
  unfold dispatch
  cases run.queue with
  | nil =>
    cases run.state.complete with
    | error cause => rfl
    | ok state => exact commit_over tells _ _
  | cons nodeId pending =>
    dsimp only
    split
    · rfl
    · cases scope.workflow.node? nodeId with
      | none => exact failNode_over tells ..
      | some node =>
        dsimp only
        split
        · rfl
        · cases scope.registry.get? node.nodeType with
          | none => exact failNode_over tells ..
          | some executor => rfl

theorem record_over (tells : Tells host.store store) (call : NodeCall) (result : NodeResult) :
    run.record scope call result (host.over store) =
      carry store (run.record scope call result host) := by
  cases result with
  | error error => exact failNode_over tells ..
  | ok outcome =>
    unfold record
    dsimp only
    split
    · split
      · rfl
      · exact commit_taken_over tells ..
    · exact commit_taken_over tells ..

theorem goOn?_over (tells : Tells host.store store) (call : NodeCall) :
    run.goOn? scope call (host.over store) =
      (run.goOn? scope call host).map (carry store) := by
  have expire : (expired? call (host.over store)).map
        (fun error => run.record scope call (.error error) (host.over store)) =
      ((expired? call host).map fun error => run.record scope call (.error error) host).map
        (carry store) := by
    change (expired? call host).map _ = _
    cases expired? call host with
    | none => rfl
    | some error => exact congrArg some (record_over tells call _)
  unfold goOn?
  rw [expire]
  change (if host.now < call.resumesAt then _ else _) = _
  split
  · rfl
  · cases call.rest with
    | answer result => exact congrArg some (record_over tells call _)
    | emit event rest => rfl
    | sleep ms rest => rfl
    | hang attentive =>
      dsimp only
      split <;> rfl

theorem compare_over (tells : Tells host.store store) (cause : EngineError) :
    run.compare cause (host.over store) = run.compare cause host := by
  have ahead : run.handle.ahead? (host.over store) = run.handle.ahead? host := by
    unfold Handle.ahead?
    rw [← tells.loadHeader]
    rfl
  rw [compare, compare, ahead]

theorem catchUp_over (tells : Tells host.store store) (cause : EngineError) (stored : ExecutionHeader) :
    run.catchUp cause stored (host.over store) = run.catchUp cause stored host := by
  have takes : run.handle.takeOver stored (host.over store) = run.handle.takeOver stored host := by
    unfold Handle.takeOver
    rw [← tells.loadCheckpoints]
    rfl
  rw [catchUp, catchUp, takes]

theorem abort_over (tells : Tells host.store store) (cause : EngineError) :
    run.abort cause (host.over store) = carry store (run.abort cause host) := by
  unfold abort
  split
  · rfl
  · cases run.state.fail cause.message with
    | error _ => rfl
    | ok state => exact commit_over tells _ _

theorem step?_over (tells : Tells host.store store) :
    run.step? scope (host.over store) = (run.step? scope host).map (carry store) := by
  unfold step?
  cases run.stage with
  | entering =>
    dsimp only
    cases run.state.setStatus .running with
    | error cause => rfl
    | ok state => exact congrArg some (commit_over tells _ _)
  | dispatching => exact congrArg some (dispatch_over tells)
  | executing call => exact goOn?_over tells call
  | committing purpose => exact settle?_over run purpose
  | settling cause =>
    change (if run.handle.isBusy host.now then none else _) = _
    split
    · rfl
    · rw [compare_over tells]
      rfl
  | catchingUp cause stored =>
    dsimp only
    rw [catchUp_over tells]
    rfl
  | aborting cause => exact congrArg some (abort_over tells cause)
  | finished result => rfl

/-- A run by itself leaves the store alone. -/
theorem store_of_step? {next : Run × Host σ} (taken : run.step? scope host = some next) :
    next.2.store = host.store := by
  -- over its own store the run takes the step that it takes
  have same : run.step? scope host = (run.step? scope host).map (carry host.store) :=
    step?_over (.refl host.store)
  rw [taken, Option.map_some, Option.some_inj] at same
  exact congrArg (fun next => next.2.store) same

end Run

/-- The commit whose time has come. -/
def Handle.due? (handle : Handle) (now : Nat) : Option Flight :=
  handle.flight.filter fun flight => flight.outcome.isNone && flight.landsAt ≤ now

/-- The handle when the store has answered. -/
def Handle.told (handle : Handle) (flight : Flight) (answer : Except StoreError Unit) : Handle :=
  { handle with flight := some { flight with outcome := some answer } }

/-- The commit whose time has come takes effect. -/
theorem Handle.land?_eq (handle : Handle) (host : Host σ) :
    handle.land? host = (handle.due? host.now).map fun flight =>
      (handle.told flight (ExecutionStore.commit host.store flight.commit).1,
        host.over (ExecutionStore.commit host.store flight.commit).2) := by
  unfold Handle.land? Handle.land due?
  cases handle.flight with
  | none => rfl
  | some flight =>
    simp only [Option.bind_eq_bind, Option.bind_some, Option.filter_some]
    split
    case isFalse => rfl
    case isTrue due =>
      rw [Bool.and_eq_true, Option.isNone_iff_eq_none] at due
      rw [due.1]
      rfl

/-- The header of an execution that a host creates. -/
def Host.newHeader (host : Host σ) (workflowId : WorkflowId) (userId : String) (context : Context)
    (totalSteps : Nat) : ExecutionHeader :=
  ExecutionState.newHeader host.stamp.2.drawId.1 workflowId userId context totalSteps host.stamp.1

/-- A handle on a new execution, as the store answers. -/
def Handle.created (header : ExecutionHeader) : Except StoreError Unit → Except EngineError Handle
  | .ok () => .ok { state := .ofRecord ⟨header, []⟩ }
  | .error e => .error (.store e)

theorem Handle.create_eq (workflowId : WorkflowId) (userId : String) (context : Context)
    (totalSteps : Nat) (host : Host σ) :
    create workflowId userId context totalSteps host =
      let header := host.newHeader workflowId userId context totalSteps
      let answer := ExecutionStore.insert host.store header
      (created header answer.1, host.stamp.2.drawId.2.over answer.2) := by
  cases answer : (ExecutionStore.insert host.store
      (host.newHeader workflowId userId context totalSteps)).1 with
  | ok _ =>
    simp only [create, newHeader, stamp, drawId] at answer ⊢
    rw [answer]
    rfl
  | error e =>
    simp only [create, newHeader, stamp, drawId] at answer ⊢
    rw [answer]
    rfl

end WorkflowEngine
