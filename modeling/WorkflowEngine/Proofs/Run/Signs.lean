import WorkflowEngine.Proofs.Definition.Codec
import WorkflowEngine.Proofs.Graph.Alike
import WorkflowEngine.Proofs.Node.Signs
import WorkflowEngine.Proofs.Run.Over
import WorkflowEngine.Proofs.Store.Signs

/-!
# Runs without the signs of zeros

What is left of a run without the signs of zeros takes the steps of the run, where neither the store nor
the node types take notice of these signs. Its node types announce and answer without them, and its
store tells its records without them.
-/
namespace WorkflowEngine

/-- The graph of a definition is read from what has no numbers. -/
theorem Workflow.alike_unsigned (w : Workflow) : w.Alike w.unsigned where
  outline := by
    rw [outline, outline, unsigned, List.map_map]
    rfl
  connections := rfl

theorem Workflow.node?_unsigned (w : Workflow) (id : NodeId) :
    w.unsigned.node? id = (w.node? id).map (·.unsigned) := by
  rw [node?, node?, unsigned, ← List.map_reverse, List.find?_map]
  rfl

def Executor.muted (executor : Executor) : Executor :=
  { executor with execute := fun ctx => (executor.execute ctx).unsigned }

def Registry.muted (registry : Registry) : Registry := ⟨registry.executors.mapValues (·.muted)⟩

theorem Registry.get?_muted (registry : Registry) (nodeType : String) :
    registry.muted.get? nodeType = (registry.get? nodeType).map (·.muted) :=
  Fields.get?_mapValues ..

/-- Whether node types take notice is seen by how they announce and answer without the signs. -/
theorem Registry.Blind.of_muted {registry other : Registry} (blind : registry.Blind)
    (same : other.muted = registry.muted) : other.Blind := by
  intro nodeType executor found ctx
  have muted := other.get?_muted nodeType
  rw [found, same, get?_muted] at muted
  obtain ⟨before, known, agree⟩ := Option.map_eq_some_iff.mp muted
  have each (ctx : NodeContext) : (before.execute ctx).unsigned = (executor.execute ctx).unsigned :=
    congrFun (congrArg Executor.execute agree) ctx
  change (executor.execute ctx.unsigned).unsigned = (executor.execute ctx).unsigned
  rw [← each, ← each]
  exact blind nodeType before known ctx

def Scope.unsigned (scope : Scope) : Scope :=
  { scope with workflow := scope.workflow.unsigned, registry := scope.registry.muted }

def EventBus.unsigned (bus : EventBus) : EventBus := { bus with sent := bus.sent.map (·.unsigned) }

def Host.unsigned {σ : Type} [ExecutionStore σ] [BlindStore σ] (host : Host σ) : Host (Muted σ) :=
  { host with store := ⟨BlindStore.unsigned host.store⟩, bus := host.bus.unsigned }

theorem Host.waitUntil_unsigned {σ : Type} [ExecutionStore σ] [BlindStore σ] (host : Host σ)
    (time : Nat) : (host.waitUntil time).unsigned = host.unsigned.waitUntil time := by
  -- Without unfolding, the two hosts are compared first, and their clocks.
  unfold waitUntil
  rfl

def Flight.unsigned (flight : Flight) : Flight := { flight with commit := flight.commit.unsigned }

namespace ExecutionState

variable (state : ExecutionState)

theorem setStatus_unsigned (status : ExecutionStatus) :
    state.unsigned.setStatus status = (state.setStatus status).map (·.unsigned) := by
  unfold setStatus
  change (if state.status.canBecome status then _ else _) = _
  split <;> rfl

theorem complete_unsigned : state.unsigned.complete = state.complete.map (·.unsigned) := by
  unfold complete
  rw [setStatus_unsigned]
  cases state.setStatus .completed <;> rfl

theorem fail_unsigned (error : String) :
    state.unsigned.fail error = (state.fail error).map (·.unsigned) := by
  unfold fail
  rw [setStatus_unsigned]
  cases state.setStatus .failed <;> rfl

theorem commit_unsigned (checkpoint : Option Checkpoint) (now : Timestamp) :
    state.unsigned.commit (checkpoint.map (·.unsigned)) now = (state.commit checkpoint now).unsigned := by
  cases checkpoint <;> rfl

theorem adopt_unsigned (stored : ExecutionHeader) (tail : List Checkpoint) :
    state.unsigned.adopt stored.unsigned (tail.map (·.unsigned)) = (state.adopt stored tail).unsigned := by
  simp only [adopt, unsigned, List.map_append, List.map_take]
  rfl

end ExecutionState

namespace Handle

def unsigned (handle : Handle) : Handle where
  state := handle.state.unsigned
  flight := handle.flight.map (·.unsigned)

variable (handle : Handle)

theorem answered?_unsigned (now : Nat) :
    handle.unsigned.answered? now = (handle.answered? now).map (Prod.map (·.unsigned) id) := by
  unfold answered? unsigned
  cases handle.flight with
  | none => rfl
  | some flight =>
    change flight.outcome.bind _ = (flight.outcome.bind _).map _
    cases flight.outcome with
    | none => rfl
    | some outcome =>
      change (if flight.answersAt ≤ now then _ else _) =
        Option.map _ (if flight.answersAt ≤ now then _ else _)
      split <;> rfl

theorem isBusy_unsigned (now : Nat) : handle.unsigned.isBusy now = handle.isBusy now := by
  unfold isBusy
  rw [answered?_unsigned, Option.isNone_map]
  exact congrArg (· && (handle.answered? now).isNone) Option.isSome_map

theorem settle_unsigned (commit : Commit) (outcome : Except StoreError Unit) :
    handle.unsigned.settle commit.unsigned outcome = (handle.settle commit outcome).map id (·.unsigned) := by
  cases outcome with
  | error cause => rfl
  | ok _ =>
    exact congrArg (fun state => (Except.ok (), Handle.mk state none))
      (handle.state.unsigned_committed commit).symm

variable {σ : Type} [ExecutionStore σ] [BlindStore σ] (host : Host σ)

theorem persist_unsigned (checkpoint : Option Checkpoint) :
    handle.unsigned.persist (checkpoint.map (·.unsigned)) host.unsigned =
      (handle.persist checkpoint host).map (·.unsigned) (·.unsigned) := by
  have latency : ExecutionStore.latency host.unsigned.store = ExecutionStore.latency host.store :=
    BlindStore.latency host.store
  have commit := handle.state.commit_unsigned checkpoint host.stamp.1
  change (handle.unsigned.send (handle.state.unsigned.commit _ host.stamp.1) host.now
    (ExecutionStore.latency host.unsigned.store), _) = _
  rw [latency, commit]
  rfl

theorem due?_unsigned (now : Nat) :
    handle.unsigned.due? now = (handle.due? now).map (·.unsigned) := by
  rw [due?, due?, unsigned, Option.filter_map]
  rfl

theorem land?_unsigned :
    handle.unsigned.land? host.unsigned =
      (handle.land? host).map (Prod.map (·.unsigned) (·.unsigned)) := by
  rw [land?_eq, land?_eq, show host.unsigned.now = host.now from rfl, due?_unsigned, Option.map_map,
    Option.map_map]
  refine congrArg (Option.map · (handle.due? host.now)) (funext fun flight => ?_)
  have commit : ExecutionStore.commit host.unsigned.store flight.commit.unsigned =
      (ExecutionStore.commit host.store flight.commit).map id (Muted.mk ∘ BlindStore.unsigned) :=
    congrArg (Prod.map id Muted.mk) (BlindStore.commit host.store flight.commit)
  change (handle.unsigned.told flight.unsigned
      (ExecutionStore.commit host.unsigned.store flight.commit.unsigned).1,
    host.unsigned.over (ExecutionStore.commit host.unsigned.store flight.commit.unsigned).2) = _
  rw [commit]
  rfl

theorem ahead?_unsigned :
    handle.unsigned.ahead? host.unsigned = (handle.ahead? host).map (·.map (·.unsigned)) := by
  have load : ExecutionStore.loadHeader host.unsigned.store handle.state.id =
      (ExecutionStore.loadHeader host.store handle.state.id).map (·.map (·.unsigned)) :=
    BlindStore.loadHeader host.store handle.state.id
  unfold ahead?
  rw [show handle.unsigned.state.id = handle.state.id from rfl, load]
  cases ExecutionStore.loadHeader host.store handle.state.id with
  | error cause => rfl
  | ok found =>
    cases found with
    | none => rfl
    | some stored =>
      change Except.ok (if handle.state.isBehind stored then _ else _) =
        Except.ok (Option.map _ (if handle.state.isBehind stored then _ else _))
      split <;> rfl

theorem takeOver_unsigned (stored : ExecutionHeader) :
    handle.unsigned.takeOver stored.unsigned host.unsigned =
      (handle.takeOver stored host).map (·.unsigned) := by
  have load : ExecutionStore.loadCheckpoints host.unsigned.store handle.state.id
        handle.state.header.checkpointCount =
      (ExecutionStore.loadCheckpoints host.store handle.state.id
        handle.state.header.checkpointCount).map (·.map (·.unsigned)) :=
    BlindStore.loadCheckpoints host.store handle.state.id handle.state.header.checkpointCount
  unfold takeOver
  rw [show handle.unsigned.state.id = handle.state.id from rfl,
    show handle.unsigned.state.header.checkpointCount = handle.state.header.checkpointCount from rfl,
    load]
  cases ExecutionStore.loadCheckpoints host.store handle.state.id
      handle.state.header.checkpointCount with
  | error cause => rfl
  | ok tail =>
    exact congrArg (fun state => Except.ok (Handle.mk state (handle.flight.map (·.unsigned))))
      (handle.state.adopt_unsigned stored tail)

end Handle

def NodeCall.unsigned (call : NodeCall) : NodeCall :=
  { call with node := call.node.unsigned, rest := call.rest.unsigned }

namespace Run

def Stage.unsigned : Stage → Stage
  | .executing call => .executing call.unsigned
  | .catchingUp cause stored => .catchingUp cause stored.unsigned
  | stage => stage

def unsigned (run : Run) : Run :=
  { run with handle := run.handle.unsigned, stage := run.stage.unsigned }

section

variable {σ : Type} [ExecutionStore σ] [BlindStore σ] (run : Run) (scope : Scope) (host : Host σ)

theorem finish_unsigned (result : Except EngineError ExecutionStatus) :
    run.unsigned.finish result host.unsigned =
      (run.finish result host).map (·.unsigned) (·.unsigned) := by
  cases result <;> rfl

theorem commit_unsigned (checkpoint : Option Checkpoint) (purpose : Purpose) :
    run.unsigned.commit (checkpoint.map (·.unsigned)) purpose host.unsigned =
      (run.commit checkpoint purpose host).map (·.unsigned) (·.unsigned) := by
  unfold commit
  rw [show run.unsigned.handle = run.handle.unsigned from rfl, Handle.persist_unsigned]
  rfl

theorem failNode_unsigned (nodeId : NodeId) (nodeName : String) (pending : List NodeId)
    (message : String) (retryable : Bool) :
    run.unsigned.failNode scope.unsigned nodeId nodeName pending message retryable host.unsigned =
      (run.failNode scope nodeId nodeName pending message retryable host).map (·.unsigned)
        (·.unsigned) := by
  unfold failNode
  rw [show run.unsigned.state = run.state.unsigned from rfl, ExecutionState.fail_unsigned]
  cases run.state.fail message with
  | error cause => rfl
  | ok state =>
    exact commit_unsigned (run.withState state)
      (run.handle.takeCheckpoint nodeId nodeName pending (some message) host).2
      (some (run.handle.takeCheckpoint nodeId nodeName pending (some message) host).1) _

theorem failKnown_unsigned (node : NodeSpec) (pending : List NodeId) (message : String)
    (retryable : Bool) :
    run.unsigned.failKnown scope.unsigned node.unsigned pending message retryable host.unsigned =
      (run.failKnown scope node pending message retryable host).map (·.unsigned) (·.unsigned) := by
  unfold failKnown
  rw [show scope.unsigned.workflow.successors node.unsigned.id none = _ from
    scope.workflow.alike_unsigned.successors node.id none]
  exact failNode_unsigned ..

theorem call_unsigned {executor : Executor} (blind : executor.Blind) (node : NodeSpec)
    (pending : List NodeId) :
    run.unsigned.call scope.unsigned executor.muted node.unsigned pending host.unsigned =
      (run.call scope executor node pending host).map (·.unsigned) (·.unsigned) := by
  let started := host.announce (.nodeStarted run.id node.id node.nodeType)
  let called (rest : Behaviour) : Run := run.unsigned.setStage (.executing
    { node := node.unsigned, pending, rest
      startedAt := started.now
      resumesAt := started.now
      limit := (scope.config.nodeTimeoutFor node).map fun ms => (ms, started.now + ms) })
  exact congrArg (fun rest => (called rest, (started.countCall node.nodeType).2.unsigned))
    (blind (run.nodeContext scope node (started.countCall node.nodeType).1))

theorem dispatch_unsigned (blind : scope.registry.Blind) :
    run.unsigned.dispatch scope.unsigned host.unsigned =
      (run.dispatch scope host).map (·.unsigned) (·.unsigned) := by
  unfold dispatch
  rw [show run.unsigned.queue = run.queue from rfl]
  cases run.queue with
  | nil =>
    dsimp only
    rw [show run.unsigned.state = run.state.unsigned from rfl, ExecutionState.complete_unsigned]
    cases run.state.complete with
    | error cause => rfl
    | ok state => exact commit_unsigned (run.withState state) host none _
  | cons nodeId pending =>
    let rest : Run := { run with queue := pending }
    change (if nodeId ∈ run.dispatched then (rest.unsigned, host.unsigned) else _) =
      Prod.map _ _ (if nodeId ∈ run.dispatched then (rest, host) else _)
    by_cases before : nodeId ∈ run.dispatched
    · rw [if_pos before, if_pos before]
      rfl
    · rw [if_neg before, if_neg before, show scope.unsigned.workflow = scope.workflow.unsigned from rfl,
        Workflow.node?_unsigned]
      cases scope.workflow.node? nodeId with
      | none => exact failNode_unsigned rest scope host ..
      | some node =>
        change (if scope.isTrigger node then (rest.unsigned, host.unsigned) else _) =
          Prod.map _ _ (if scope.isTrigger node then (rest, host) else _)
        by_cases trigger : scope.isTrigger node = true
        · rw [if_pos trigger, if_pos trigger]
          rfl
        · rw [if_neg trigger, if_neg trigger]
          rw [show scope.unsigned.registry.get? node.unsigned.nodeType = _ from
            scope.registry.get?_muted node.nodeType]
          cases found : scope.registry.get? node.nodeType with
          | none => exact failKnown_unsigned rest scope host node ..
          | some executor => exact call_unsigned rest scope host (blind _ _ found) node pending

theorem followed_unsigned (node : NodeSpec) (outcome : NodeOutcome) :
    followed scope.unsigned node.unsigned outcome.unsigned = followed scope node outcome := by
  unfold followed
  rw [show scope.unsigned.workflow.isBranch node.unsigned.id = _ from
      scope.workflow.alike_unsigned.isBranch node.id, NodeOutcome.selection_unsigned,
    show scope.unsigned.workflow.successors node.unsigned.id _ = _ from
      scope.workflow.alike_unsigned.successors node.id _]

theorem record_unsigned (call : NodeCall) (result : NodeResult) :
    run.unsigned.record scope.unsigned call.unsigned result.unsigned host.unsigned =
      (run.record scope call result host).map (·.unsigned) (·.unsigned) := by
  cases result with
  | error error => exact failKnown_unsigned run scope host call.node ..
  | ok outcome =>
    let visited : Run := { run with dispatched := call.node.id :: run.dispatched }
    let after := visited.withState (visited.state.setContext outcome.context).incrementStep
    let continuation := call.pending ++ followed scope call.node outcome
    have taken (next : Run) (purpose : Purpose) :=
      commit_unsigned next
        (next.handle.takeCheckpoint call.node.id call.node.displayName continuation none host).2
        (some (next.handle.takeCheckpoint call.node.id call.node.displayName continuation none host).1)
        purpose
    let visited' : Run :=
      { run.unsigned with dispatched := call.node.unsigned.id :: run.unsigned.dispatched }
    let after' := visited'.withState (visited'.state.setContext outcome.context.unsigned).incrementStep
    have status : after'.state.setStatus .paused = (after.state.setStatus .paused).map (·.unsigned) :=
      after.state.setStatus_unsigned .paused
    change record run.unsigned scope.unsigned call.unsigned (.ok outcome.unsigned) host.unsigned = _
    unfold record
    dsimp only
    rw [outcome.context_unsigned, outcome.isPause_unsigned,
      show call.unsigned.node = call.node.unsigned from rfl, followed_unsigned]
    by_cases paused : outcome.isPause = true
    · rw [if_pos paused, if_pos paused, status]
      cases after.state.setStatus .paused with
      | error cause => rfl
      | ok state => exact taken (after.withState state) _
    · rw [if_neg paused, if_neg paused]
      exact taken after _

theorem proceed_unsigned (purpose : Purpose) :
    run.unsigned.proceed purpose host.unsigned =
      (run.proceed purpose host).map (·.unsigned) (·.unsigned) := by
  cases purpose <;> rfl

theorem giveUp_unsigned (purpose : Purpose) (error : EngineError) :
    run.unsigned.giveUp purpose error host.unsigned =
      (run.giveUp purpose error host).map (·.unsigned) (·.unsigned) := by
  cases purpose <;> rfl

theorem settle?_unsigned (purpose : Purpose) :
    run.unsigned.settle? purpose host.unsigned =
      (run.settle? purpose host).map (Prod.map (·.unsigned) (·.unsigned)) := by
  unfold settle?
  rw [show run.unsigned.handle = run.handle.unsigned from rfl,
    show host.unsigned.now = host.now from rfl, Handle.answered?_unsigned]
  cases run.handle.answered? host.now with
  | none => rfl
  | some answer =>
    obtain ⟨commit, outcome⟩ := answer
    let after : Run := { run with handle := (run.handle.settle commit outcome).2 }
    have settled : ({ run.unsigned with
        handle := (run.handle.unsigned.settle commit.unsigned outcome).2 } : Run) = after.unsigned := by
      rw [run.handle.settle_unsigned]
      rfl
    cases outcome with
    | ok _ =>
      exact congrArg some ((congrArg (proceed · purpose host.unsigned) settled).trans
        (proceed_unsigned after host purpose))
    | error cause => exact congrArg some (giveUp_unsigned after host purpose (.store cause))

theorem compare_unsigned (cause : EngineError) :
    run.unsigned.compare cause host.unsigned = (run.compare cause host).unsigned := by
  unfold compare
  rw [show run.unsigned.handle = run.handle.unsigned from rfl, Handle.ahead?_unsigned]
  cases run.handle.ahead? host with
  | error error => rfl
  | ok found => cases found <;> rfl

theorem catchUp_unsigned (cause : EngineError) (stored : ExecutionHeader) :
    run.unsigned.catchUp cause stored.unsigned host.unsigned = (run.catchUp cause stored host).unsigned := by
  unfold catchUp
  rw [show run.unsigned.handle = run.handle.unsigned from rfl, Handle.takeOver_unsigned]
  cases run.handle.takeOver stored host <;> rfl

theorem abort_unsigned (cause : EngineError) :
    run.unsigned.abort cause host.unsigned = (run.abort cause host).map (·.unsigned) (·.unsigned) := by
  unfold abort
  by_cases recorded : isRecorded cause = true
  · rw [if_pos recorded, if_pos recorded]
    exact finish_unsigned run host (.error cause)
  · rw [if_neg recorded, if_neg recorded, show run.unsigned.state = run.state.unsigned from rfl,
      ExecutionState.fail_unsigned]
    cases run.state.fail cause.message with
    | error _ => exact finish_unsigned run host (.error cause)
    | ok state => exact commit_unsigned (run.withState state) host none _

theorem goOn?_unsigned (call : NodeCall) :
    run.unsigned.goOn? scope.unsigned call.unsigned host.unsigned =
      (run.goOn? scope call host).map (Prod.map (·.unsigned) (·.unsigned)) := by
  have expire : (expired? call.unsigned host.unsigned).map (fun error =>
        run.unsigned.record scope.unsigned call.unsigned (.error error) host.unsigned) =
      ((expired? call host).map fun error => run.record scope call (.error error) host).map
        (Prod.map (·.unsigned) (·.unsigned)) := by
    change (expired? call host).map _ = _
    cases expired? call host with
    | none => rfl
    | some error => exact congrArg some (record_unsigned run scope host call (.error error))
  unfold goOn?
  rw [expire]
  change (if host.now < call.resumesAt then _ else _) =
    Option.map _ (if host.now < call.resumesAt then _ else _)
  split
  · rfl
  · rw [show call.unsigned.rest = call.rest.unsigned from rfl]
    cases call.rest with
    | answer result => exact congrArg some (record_unsigned run scope host call result)
    | emit event rest => rfl
    | sleep ms rest => rfl
    | hang attentive =>
      change (if attentive && run.attentive = 0 then _ else _) =
        Option.map _ (if attentive && run.attentive = 0 then _ else _)
      split <;> rfl

theorem step?_unsigned (blind : scope.registry.Blind) :
    run.unsigned.step? scope.unsigned host.unsigned =
      (run.step? scope host).map (Prod.map (·.unsigned) (·.unsigned)) := by
  unfold step?
  rw [show run.unsigned.stage = run.stage.unsigned from rfl]
  cases run.stage with
  | entering =>
    dsimp only [Stage.unsigned]
    rw [show run.unsigned.state.setStatus .running = _ from run.state.setStatus_unsigned .running]
    cases run.state.setStatus .running with
    | error cause => rfl
    | ok state => exact congrArg some (commit_unsigned (run.withState state) host none _)
  | dispatching => exact congrArg some (dispatch_unsigned run scope host blind)
  | executing call => exact goOn?_unsigned run scope host call
  | committing purpose => exact settle?_unsigned run host purpose
  | settling cause =>
    let idle : Run := { run with handle := run.handle.clear }
    change (if run.handle.unsigned.isBusy host.now then none
      else some (idle.unsigned.compare cause host.unsigned, host.unsigned)) = _
    rw [Handle.isBusy_unsigned, compare_unsigned]
    dsimp only
    split <;> rfl
  | catchingUp cause stored =>
    exact congrArg (fun run => some (run, host.unsigned)) (catchUp_unsigned run host cause stored)
  | aborting cause => exact congrArg some (abort_unsigned run host cause)
  | finished result => rfl

theorem isInterruptible_unsigned : run.unsigned.isInterruptible = run.isInterruptible := by
  unfold isInterruptible
  rw [show run.unsigned.stage = run.stage.unsigned from rfl]
  cases run.stage with
  | committing purpose => cases purpose <;> rfl
  | _ => rfl

theorem next?_unsigned (blind : scope.registry.Blind) :
    run.unsigned.next? scope.unsigned host.unsigned =
      (run.next? scope host).map (Prod.map (·.unsigned) (·.unsigned)) := by
  have interruption : run.unsigned.interruption? host.unsigned = run.interruption? host := by
    unfold interruption?
    rw [isInterruptible_unsigned]
    rfl
  have land : run.unsigned.land? host.unsigned =
      (run.land? host).map (Prod.map (·.unsigned) (·.unsigned)) := by
    unfold land?
    rw [show run.unsigned.handle = run.handle.unsigned from rfl, Handle.land?_unsigned, Option.map_map,
      Option.map_map]
    rfl
  unfold next?
  rw [interruption, land, step?_unsigned run scope host blind]
  cases run.interruption? host with
  | some cause => rfl
  | none => cases run.land? host <;> rfl

theorem start_unsigned (state : ExecutionState) (cancelled : Bool) :
    start scope.unsigned state.unsigned cancelled host.unsigned =
      (start scope state cancelled host).map (·.unsigned) (·.unsigned) := by
  have point : state.unsigned.resumePoint? = state.resumePoint? := by
    unfold ExecutionState.resumePoint?
    rw [show state.unsigned.checkpoints = state.checkpoints.map (·.unsigned) from rfl,
      List.getLast?_map, Option.map_map]
    rfl
  have queue : initialQueue scope.unsigned state.unsigned = initialQueue scope state := by
    unfold initialQueue
    rw [point, show scope.unsigned.workflow.entryNodes scope.unsigned.config.isTrigger = _ from
      scope.workflow.alike_unsigned.entryNodes scope.config.isTrigger]
    rfl
  have dispatched : state.unsigned.checkpointedNodes = state.checkpointedNodes := List.map_map
  unfold start
  rw [queue, dispatched]
  rfl

end

end Run

end WorkflowEngine
