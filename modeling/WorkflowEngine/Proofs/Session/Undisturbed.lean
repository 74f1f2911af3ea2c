import Mathlib.Logic.Relation
import WorkflowEngine.Engine.Timeline
import WorkflowEngine.Proofs.Run.Walk
import WorkflowEngine.Proofs.Session.Conduct

/-!
A call that nothing is in the way of. Its store is in memory, its nodes answer at once and none of
them pauses or fails, so it never waits, and no deadline comes. Such a call goes from visit to visit
and is over when nothing is left to visit.

What it announces is not covered.
-/
namespace WorkflowEngine

namespace Call

variable {σ : Type} [ExecutionStore σ]

/-- A call goes on by itself. -/
def Moves (before after : Call × Engine × Host σ) : Prop :=
  before.1.next? before.2.1 before.2.2 = some after

/-- What a call comes to by itself and without waiting. -/
abbrev Leads (before after : Call × Engine × Host σ) : Prop :=
  Relation.ReflTransGen Moves before after

theorem Leads.play {before after : Call × Engine × Host σ} (h : Leads before after) :
    ∃ steps, ∀ fuel, before.1.play (steps + fuel) before.2.1 before.2.2 =
      after.1.play fuel after.2.1 after.2.2 := by
  induction h using Relation.ReflTransGen.head_induction_on with
  | refl => exact ⟨0, fun fuel => by rw [Nat.zero_add]⟩
  | head hmoves _ ih =>
      obtain ⟨steps, hsteps⟩ := ih
      refine ⟨steps + 1, fun fuel => ?_⟩
      rw [Nat.add_right_comm, Call.play, hmoves]
      exact hsteps fuel

theorem play_ended (outcome : Except EngineError RunResult) (engine : Engine) (host : Host σ)
    (fuel : Nat) : (ended outcome).play fuel engine host = (ended outcome, engine, host) := by
  cases fuel <;> rfl

/-- A call that is over takes no more steps. -/
theorem play_of_ended {outcome : Except EngineError RunResult} {steps fuel : Nat} {call : Call}
    {engine engine' : Engine} {host host' : Host σ}
    (hover : call.play steps engine host = (ended outcome, engine', host')) (hfuel : steps ≤ fuel) :
    call.play fuel engine host = (ended outcome, engine', host') := by
  induction steps generalizing call engine host fuel with
  | zero =>
      cases hover
      exact play_ended _ _ _ fuel
  | succ steps ih =>
      obtain ⟨fuel, rfl⟩ := Nat.exists_eq_add_of_le' hfuel
      change call.play (fuel + steps + 1) engine host = _
      rw [play] at hover ⊢
      cases hnext : call.next? engine host with
      | some next =>
          rw [hnext] at hover
          exact ih hover (Nat.le_add_left steps fuel)
      | none =>
          rw [hnext] at hover
          cases hwakes : call.wakesAt? with
          | some time =>
              simp only [hwakes] at hover ⊢
              exact ih hover (Nat.le_add_left steps fuel)
          | none =>
              simp only [hwakes] at hover ⊢
              exact hover

theorem perform_of_ended {outcome : Except EngineError RunResult} {steps : Nat} {call : Call}
    {engine engine' : Engine} {host host' : Host σ}
    (hover : call.play steps engine host = (ended outcome, engine', host'))
    (hsteps : steps ≤ stepBound) : call.perform engine host = (outcome, engine', host') := by
  unfold perform
  rw [play_of_ended hover hsteps]
  rfl

/-- A run that nobody cancels goes on as it does alone. -/
theorem moves_driving {engine : Engine} {scope : Scope} {run run' : Run} {host host' : Host σ}
    (huncancelled : engine.isCancelled run.id = false) (hopen : run.result? = none)
    (hnext : run.next? scope host = some (run', host')) :
    Moves (.driving scope run, engine, host) (.driving scope run', engine, host') := by
  unfold Moves Call.next?
  simp only [huncancelled, Bool.or_false, hopen, hnext, Option.map_some]

end Call

namespace Run

variable {σ : Type} [ExecutionStore σ] {scope : Scope} {run : Run}

/-- Before its deadline a run that nobody cancels goes on. -/
theorem next?_of_early {host : Host σ} (hearly : host.now < run.deadlineAt)
    (hquiet : run.cancelled = false) :
    run.next? scope host = (run.land? host <|> run.step? scope host) := by
  have hlate : ¬run.deadlineAt ≤ host.now := Nat.not_le.mpr hearly
  have hgoes : run.interruption? host = none := by
    unfold interruption?
    simp [hquiet, hlate]
  unfold next?
  rw [hgoes]

/-- A run that waits for a commit. -/
def awaiting (run : Run) (purpose : Purpose) (flight : Flight) : Run :=
  { run with handle := ⟨run.state, some flight⟩, stage := .committing purpose }

/-- A run whose commit was answered. -/
def settled (run : Run) (purpose : Purpose) (execution : StoredExecution) : Run :=
  { run with handle := ⟨execution.state, none⟩, stage := .committing purpose }

/-- Nothing is in the way of a run: its deadline is ahead, nobody asked for its cancellation, and it
has the record that is in the store. -/
structure Free [LawfulStore σ] (engine : Engine) (run : Run) (host : Host σ)
    (execution : StoredExecution) : Prop where
  stored : LawfulStore.stored host.store run.id = some execution
  level : run.state.Level execution
  early : host.now < run.deadlineAt
  quiet : run.cancelled = false
  uncancelled : engine.isCancelled run.id = false

namespace Free

section

variable [LawfulStore σ] {engine : Engine} {host : Host σ} {execution : StoredExecution}

theorem alike {host' : Host σ} (h : run.Free engine host execution)
    (halike : host.Alike host') : run.Free engine host' execution :=
  ⟨halike.1.symm ▸ h.stored, h.level, halike.2.symm ▸ h.early, h.quiet, h.uncancelled⟩

theorem withState {state : ExecutionState} (h : run.Free engine host execution)
    (hlevel : state.Level execution) : (run.withState state).Free engine host execution := by
  have hid : (run.withState state).id = run.id := hlevel.id.trans h.level.id.symm
  refine ⟨?_, hlevel, h.early, h.quiet, ?_⟩
  · rw [hid]
    exact h.stored
  · rw [hid]
    exact h.uncancelled

/-- A step that need not wait is taken. -/
theorem moves {run' : Run} {host' : Host σ} (h : run.Free engine host execution)
    (hidle : run.handle.flight = none) (hstep : run.step? scope host = some (run', host')) :
    Call.Moves (.driving scope run, engine, host) (.driving scope run', engine, host') := by
  have hland : run.land? host = none := by
    simp [land?, Handle.land?, hidle]
  have hopen : run.result? = none := by
    unfold result?
    cases hstage : run.stage with
    | finished => simp [step?, hstage] at hstep
    | _ => rfl
  apply Call.moves_driving h.uncancelled hopen
  rw [next?_of_early h.early h.quiet, hland]
  exact hstep

variable {purpose : Purpose} {flight : Flight}

/-- A commit whose time has come takes effect. -/
theorem lands (h : run.Free engine host execution) (houtcome : flight.outcome = none)
    (hdue : flight.landsAt ≤ host.now)
    (hcommit : (ExecutionStore.commit host.store flight.commit).1 = .ok ()) :
    Call.Moves (.driving scope (run.awaiting purpose flight), engine, host)
      (.driving scope (run.awaiting purpose { flight with outcome := some (.ok ()) }), engine,
        { host with store := (ExecutionStore.commit host.store flight.commit).2 }) := by
  have hlands : (run.awaiting purpose flight).land? host =
      some (run.awaiting purpose { flight with outcome := some (.ok ()) },
        { host with store := (ExecutionStore.commit host.store flight.commit).2 }) := by
    simp [land?, Handle.land?, Handle.land, awaiting, houtcome, hdue, hcommit]
  have hnext : (run.awaiting purpose flight).next? scope host =
      ((run.awaiting purpose flight).land? host <|>
        (run.awaiting purpose flight).step? scope host) :=
    next?_of_early h.early h.quiet
  refine Call.moves_driving h.uncancelled rfl ?_
  rw [hnext, hlands]
  rfl

/-- A commit that took effect is answered. -/
theorem settles (h : run.Free engine host execution) (after : Host σ)
    (hearly : after.now < run.deadlineAt) (houtcome : flight.outcome = some (.ok ()))
    (hdue : flight.answersAt ≤ after.now) {later : StoredExecution}
    (hlater : run.state.committed flight.commit = later.state) :
    Call.Moves (.driving scope (run.awaiting purpose flight), engine, after)
      (.driving scope ((run.settled purpose later).proceed purpose after).1, engine,
        ((run.settled purpose later).proceed purpose after).2) := by
  have hanswers : (run.awaiting purpose flight).handle.answered? after.now =
      some (flight.commit, .ok ()) := by
    simp [Handle.answered?, awaiting, houtcome, hdue]
  have hland : (run.awaiting purpose flight).land? after = none := by
    simp [land?, Handle.land?, awaiting, houtcome]
  have hstep : (run.awaiting purpose flight).step? scope after =
      some ((run.settled purpose later).proceed purpose after) := by
    change settle? (run.awaiting purpose flight) purpose after = _
    unfold settle? settled
    rw [hanswers, ← hlater]
    rfl
  have hnext : (run.awaiting purpose flight).next? scope after =
      ((run.awaiting purpose flight).land? after <|>
        (run.awaiting purpose flight).step? scope after) :=
    next?_of_early hearly h.quiet
  refine Call.moves_driving h.uncancelled rfl ?_
  rw [hnext, hland, hstep]
  rfl

/-- A commit of the copy is accepted where only the version counts. -/
theorem accepts (h : run.Free engine host execution) (hmended : Mended host.store)
    (checkpoint : Option Checkpoint) (time : Timestamp) :
    (ExecutionStore.commit host.store (run.state.commit checkpoint time)).1 = .ok () ∧
      LawfulStore.stored (ExecutionStore.commit host.store (run.state.commit checkpoint time)).2
          run.id = some (execution.extend (run.state.commit checkpoint time)) ∧
      run.state.committed (run.state.commit checkpoint time) =
        (execution.extend (run.state.commit checkpoint time)).state := by
  obtain ⟨hcommit, hstored⟩ :=
    (h.level.fits checkpoint time).accepted hmended h.stored
  refine ⟨hcommit, ?_, ?_⟩
  · rw [hstored]
    exact Function.update_self ..
  · unfold ExecutionState.committed
    rw [h.level.log]
    rfl

end

variable {engine : Engine} {host : Host MemoryStore} {execution : StoredExecution}

/-- A commit takes effect and is answered at once. -/
theorem commits (h : run.Free engine host execution) (scope : Scope)
    (checkpoint : Option Checkpoint) (purpose : Purpose) :
    ∃ time host', host'.now = host.now ∧
      LawfulStore.stored host'.store run.id =
        some (execution.extend (run.state.commit checkpoint time)) ∧
      Call.Leads
        (.driving scope (run.commit checkpoint purpose host).1, engine,
          (run.commit checkpoint purpose host).2)
        (.driving scope ((run.settled purpose
            (execution.extend (run.state.commit checkpoint time))).proceed purpose host').1, engine,
          ((run.settled purpose
            (execution.extend (run.state.commit checkpoint time))).proceed purpose host').2) := by
  obtain ⟨time, after, halike, hasked⟩ : ∃ time after, host.Alike after ∧
      run.commit checkpoint purpose host = (run.awaiting purpose
        ⟨run.state.commit checkpoint time, after.now, after.now, none⟩, after) :=
    ⟨host.stamp.1, host.stamp.2, ⟨rfl, rfl⟩, rfl⟩
  have hafter := h.alike halike
  obtain ⟨hcommit, hstored, hlater⟩ :=
    hafter.accepts (mended_of_reliable trivial) checkpoint time
  let flight : Flight := ⟨run.state.commit checkpoint time, after.now, after.now, none⟩
  let landed : Host MemoryStore := { after with
    store := (ExecutionStore.commit after.store flight.commit).2 }
  have hlands : Call.Moves (.driving scope (run.awaiting purpose flight), engine, after)
      (.driving scope (run.awaiting purpose { flight with outcome := some (.ok ()) }), engine,
        landed) :=
    hafter.lands rfl (Nat.le_refl _) hcommit
  refine ⟨time, landed, halike.2, hstored, ?_⟩
  rw [hasked]
  exact .head hlands (.single (hafter.settles landed hafter.early rfl (Nat.le_refl _) hlater))

end Free

/-- A run between two nodes that nothing is in the way of. -/
structure Underway [LawfulStore σ] (engine : Engine) (run : Run) (host : Host σ)
    (execution : StoredExecution) : Prop extends Free engine run host execution where
  stage : run.stage = .dispatching
  handle : run.handle = ⟨execution.state, none⟩
  running : execution.header.status = .running

namespace Underway

section

variable [LawfulStore σ] {engine : Engine} {host : Host σ} {execution : StoredExecution}

theorem step?_eq (h : run.Underway engine host execution) :
    run.step? scope host = some (run.dispatch scope host) := by
  unfold step?
  rw [h.stage]

omit [LawfulStore σ] in
private theorem dispatch_skip {id : NodeId} {pending : List NodeId}
    (hqueue : run.queue = id :: pending) (hpasses : scope.passes run.dispatched id = true) :
    run.dispatch scope host = ({ run with queue := pending }, host) := by
  unfold dispatch
  simp only [hqueue]
  by_cases hseen : id ∈ run.dispatched
  · rw [if_pos hseen]
  · rw [if_neg hseen]
    have htrigger : scope.workflow.isTriggerId scope.config.isTrigger id = true := by
      simpa [Scope.passes, hseen] using hpasses
    cases hnode : scope.workflow.node? id with
    | none =>
        rw [Scope.isTriggerId_of_unknown hnode] at htrigger
        cases htrigger
    | some node =>
        rw [Scope.isTriggerId_of_node hnode] at htrigger
        simp only [htrigger, if_true]

/-- Only the queue differs. -/
theorem requeue (h : run.Underway engine host execution) (queue : List NodeId) :
    Underway engine { run with queue } host execution :=
  ⟨⟨h.stored, h.level, h.early, h.quiet, h.uncancelled⟩, h.stage, h.handle, h.running⟩

/-- Nodes that are not to be visited are dropped from the queue. -/
theorem skips (h : run.Underway engine host execution) (scope : Scope) :
    Call.Leads (.driving scope run, engine, host)
      (.driving scope { run with queue := scope.front run.dispatched run.queue }, engine,
        host) := by
  generalize hqueue : run.queue = queue
  induction queue generalizing run with
  | nil =>
      have hsame : { run with queue := scope.front run.dispatched [] } = run := by
        cases run
        cases hqueue
        rfl
      rw [hsame]
  | cons id pending ih =>
      cases hpasses : scope.passes run.dispatched id with
      | true =>
          have hstep : run.step? scope host = some ({ run with queue := pending }, host) := by
            rw [h.step?_eq, dispatch_skip hqueue hpasses]
          rw [Scope.front_skip hpasses]
          exact .head (h.moves (by rw [h.handle]) hstep) (ih (h.requeue pending) rfl)
      | false =>
          have hsame : { run with queue := scope.front run.dispatched (id :: pending) } = run := by
            rw [Scope.front_visit hpasses]
            cases run
            cases hqueue
            rfl
          rw [hsame]

omit [LawfulStore σ] in
theorem dispatch_call {node : NodeSpec} {pending : List NodeId} {executor : Executor}
    (host : Host σ) (hqueue : run.queue = node.id :: pending)
    (hpasses : scope.passes run.dispatched node.id = false)
    (hnode : scope.workflow.node? node.id = some node)
    (hexecutor : scope.registry.get? node.nodeType = some executor) :
    ∃ earlier call after,
      run.dispatch scope host = ({ run with queue := pending, stage := .executing call }, after) ∧
      host.Alike after ∧ call.node = node ∧ call.pending = pending ∧ call.resumesAt = after.now ∧
      call.rest =
        executor.execute ({ run with queue := pending }.nodeContext scope node earlier) := by
  rw [Scope.passes, Bool.or_eq_false_iff, decide_eq_false_iff_not] at hpasses
  obtain ⟨hseen, htrigger⟩ := hpasses
  rw [Scope.isTriggerId_of_node hnode] at htrigger
  have hcalled : run.dispatch scope host =
      { run with queue := pending }.call scope executor node pending host := by
    unfold dispatch
    simp only [hqueue, hseen, hnode, htrigger, hexecutor, if_false, Bool.false_eq_true]
  exact ⟨_, _, _, hcalled, ⟨rfl, rfl⟩, rfl, rfl, rfl, rfl⟩

end

variable {engine : Engine} {host : Host MemoryStore} {execution : StoredExecution}

private theorem record_eq (scope : Scope) (run : Run) (call : NodeCall) {outcome : NodeOutcome}
    (host : Host MemoryStore) (hpause : outcome.isPause = false) :
    ∃ id time after duration, host.Alike after ∧
      run.record scope call (.ok outcome) host =
        commit
          { run with
            handle := ⟨run.succeeded outcome, run.handle.flight⟩
            dispatched := call.node.id :: run.dispatched }
          (some ((run.succeeded outcome).newCheckpoint id time call.node.id call.node.displayName
            (call.pending ++ followed scope call.node outcome) none))
          (.completion call.node.id (followed scope call.node outcome) duration) after := by
  obtain ⟨id, time, after, htaken, halike⟩ := takeCheckpoint_eq
    ⟨run.succeeded outcome, run.handle.flight⟩ call.node.id call.node.displayName
    (call.pending ++ followed scope call.node outcome) none host
  refine ⟨id, time, after, after.now - call.startedAt, halike, ?_⟩
  simp only [succeeded, Run.state] at htaken
  unfold record
  simp only [hpause, Bool.false_eq_true, if_false, withState, Run.state, htaken]
  rfl

private theorem step?_answer {call : NodeCall} {result : NodeResult}
    (hstage : run.stage = .executing call) (hresumes : call.resumesAt = host.now)
    (hrest : call.rest = .answer result) :
    run.step? scope host = some (run.record scope call result host) := by
  unfold step? goOn?
  simp only [hstage, hresumes, hrest, Nat.lt_irrefl, if_false]

/-- The checkpoint of a node that answers is made durable. -/
private theorem answers (h : run.Free engine host execution)
    (hhandle : run.handle = ⟨execution.state, none⟩) (hrunning : execution.header.status = .running)
    {call : NodeCall} {outcome : NodeOutcome} (hstage : run.stage = .executing call)
    (hresumes : call.resumesAt = host.now) (hrest : call.rest = .answer (.ok outcome))
    (hpause : outcome.isPause = false) :
    ∃ run' host' later checkpoint,
      Call.Leads (.driving scope run, engine, host) (.driving scope run', engine, host') ∧
      run'.Underway engine host' later ∧
      run'.queue = run.queue ++ followed scope call.node outcome ∧
      run'.dispatched = call.node.id :: run.dispatched ∧
      later.log = execution.log ++ [checkpoint] ∧ later.header.context = checkpoint.context ∧
      checkpoint.nodeId = call.node.id ∧ checkpoint.context = outcome.context ∧
      checkpoint.pending = call.pending ++ followed scope call.node outcome := by
  obtain ⟨id, time, recorded, duration, halike, hrecord⟩ := record_eq scope run call host hpause
  have hstep : run.step? scope host = some (run.record scope call (.ok outcome) host) :=
    step?_answer hstage hresumes hrest
  rw [hrecord] at hstep
  have hmoves := h.moves (by rw [hhandle]) hstep
  have hstate : run.state = execution.state := congrArg (·.state) hhandle
  have hanswer : call.rest.answer? = some (.ok outcome) := by rw [hrest]; rfl
  have hdemand : run.Demands scope _ := .completion id time duration hstage hanswer hpause
  have hfree := (h.alike halike).withState (hdemand.level h.level)
  have hrecorded : Free engine { run with
      handle := ⟨run.succeeded outcome, run.handle.flight⟩
      dispatched := call.node.id :: run.dispatched } recorded execution :=
    ⟨hfree.stored, hfree.level, hfree.early, hfree.quiet, hfree.uncancelled⟩
  obtain ⟨made, landed, hnow, hstored, hleads⟩ := hrecorded.commits scope
    (some ((run.succeeded outcome).newCheckpoint id time call.node.id call.node.displayName
      (call.pending ++ followed scope call.node outcome) none))
    (.completion call.node.id (followed scope call.node outcome) duration)
  refine ⟨_, _, _, _, .head hmoves hleads,
    ⟨⟨hstored, ?_, ?_, h.quiet, h.uncancelled⟩, rfl, rfl, ?_⟩, rfl, rfl, rfl, rfl, rfl, rfl, rfl⟩
  · exact (ExecutionState.clean_state _).toLevel
  · exact (hnow.trans halike.2).symm ▸ h.early
  · change run.state.header.status = .running
    rw [hstate]
    exact hrunning

/-- The next node is called, answers at once, and its checkpoint is made durable. -/
theorem visits (h : run.Underway engine host execution) (scope : Scope) {node : NodeSpec}
    {pending : List NodeId} {executor : Executor} {outcome : NodeOutcome}
    (hqueue : run.queue = node.id :: pending)
    (hpasses : scope.passes run.dispatched node.id = false)
    (hnode : scope.workflow.node? node.id = some node)
    (hexecutor : scope.registry.get? node.nodeType = some executor)
    (hanswer : ∀ ctx : NodeContext, ctx.nodeId = node.id → ctx.config = node.config →
      ctx.context = execution.header.context → executor.execute ctx = .answer (.ok outcome))
    (hpause : outcome.isPause = false) :
    ∃ run' host' later checkpoint,
      Call.Leads (.driving scope run, engine, host) (.driving scope run', engine, host') ∧
      run'.Underway engine host' later ∧ run'.queue = checkpoint.pending ∧
      run'.dispatched = node.id :: run.dispatched ∧ later.log = execution.log ++ [checkpoint] ∧
      later.header.context = checkpoint.context ∧ checkpoint.nodeId = node.id ∧
      checkpoint.context = outcome.context ∧
      checkpoint.pending = pending ++ followed scope node outcome := by
  obtain ⟨earlier, call, called, hdispatch, hcalled, rfl, rfl, hresumes, hrest⟩ :=
    dispatch_call host hqueue hpasses hnode hexecutor
  have hstate : run.state = execution.state := congrArg (·.state) h.handle
  rw [hanswer _ rfl rfl (by change run.state.header.context = _; rw [hstate]; rfl)] at hrest
  have hmoves := h.moves (by rw [h.handle]) (h.step?_eq.trans (congrArg some hdispatch))
  have hfree := h.toFree.alike hcalled
  have hexecuting : Free engine { run with queue := call.pending, stage := .executing call } called
      execution :=
    ⟨hfree.stored, hfree.level, hfree.early, hfree.quiet, hfree.uncancelled⟩
  obtain ⟨run', host', later, checkpoint, hleads, hunderway, hqueue', hrest'⟩ :=
    answers hexecuting h.handle h.running rfl hresumes hrest hpause
  refine ⟨run', host', later, checkpoint, .head hmoves hleads, hunderway, ?_, hrest'⟩
  rw [hqueue', hrest'.2.2.2.2.2]

/-- With nothing left to visit the run is over, and with it the call. -/
theorem concludes (h : run.Underway engine host execution) (scope : Scope)
    (hqueue : run.queue = []) :
    ∃ result engine' host' later,
      Call.Leads (.driving scope run, engine, host) (.ended (.ok result), engine', host') ∧
      result.success = true ∧ result.status = .completed ∧
      result.output = execution.header.context ∧
      LawfulStore.stored host'.store result.executionId = some later ∧
      later.header.status = .completed ∧ later.header.context = execution.header.context ∧
      later.log = execution.log := by
  have hstate : run.state = execution.state := congrArg (·.state) h.handle
  have hrunning : run.state.status = .running := by
    rw [hstate]
    exact h.running
  obtain ⟨completed, hcomplete⟩ : ∃ completed, run.state.complete = .ok completed := by
    unfold ExecutionState.complete ExecutionState.setStatus
    rw [hrunning]
    exact ⟨_, rfl⟩
  have hstep : run.step? scope host =
      some ((run.withState completed).commit none .conclusion host) := by
    rw [h.step?_eq]
    unfold dispatch
    simp only [hqueue, hcomplete]
  have hdemand : run.Demands scope _ := .conclusion h.stage hqueue hcomplete
  obtain ⟨time, landed, -, hstored, hleads⟩ :=
    (h.withState (hdemand.level h.level)).commits scope none .conclusion
  obtain ⟨-, rfl⟩ := ExecutionState.complete_ok hcomplete
  refine ⟨_, _, _, _, .head (h.moves (by rw [h.handle]) hstep) (.tail hleads rfl), rfl, rfl, ?_,
    hstored, rfl, ?_, ?_⟩
  · change run.state.header.context = _
    rw [hstate]
    rfl
  · change run.state.header.context = _
    rw [hstate]
    rfl
  · simp [StoredExecution.extend, ExecutionState.commit]

end Underway

/-- A run enters by a commit of its own. -/
theorem Free.enters {engine : Engine} {host : Host MemoryStore} {execution : StoredExecution}
    (h : run.Free engine host execution) (scope : Scope)
    (hhandle : run.handle = ⟨execution.state, none⟩) (hstage : run.stage = .entering)
    (hlegal : execution.header.status.canBecome .running = true) :
    ∃ run' host' later,
      Call.Leads (.driving scope run, engine, host) (.driving scope run', engine, host') ∧
      run'.Underway engine host' later ∧ run'.queue = run.queue ∧
      run'.dispatched = run.dispatched ∧ later.log = execution.log ∧
      later.header.context = execution.header.context := by
  have hstate : run.state = execution.state := congrArg (·.state) hhandle
  obtain ⟨state, hstatus⟩ : ∃ state, run.state.setStatus .running = .ok state := by
    unfold ExecutionState.setStatus
    rw [hstate]
    exact ⟨_, if_pos hlegal⟩
  have hstep : run.step? scope host =
      some ((run.withState state).commit none .entry host) := by
    unfold step?
    simp only [hstage, hstatus]
  have hdemand : run.Demands scope _ := .entry hstage hstatus
  obtain ⟨time, landed, hnow, hstored, hleads⟩ :=
    (h.withState (hdemand.level h.level)).commits scope none .entry
  obtain ⟨-, rfl⟩ := ExecutionState.setStatus_ok hstatus
  refine ⟨_, _, _, .head (h.moves (by rw [hhandle]) hstep) hleads,
    ⟨⟨hstored, (ExecutionState.clean_state _).toLevel, hnow.symm ▸ h.early, h.quiet,
      h.uncancelled⟩, rfl, rfl, rfl⟩, rfl, rfl, ?_, ?_⟩
  · simp [StoredExecution.extend, ExecutionState.commit]
  · change run.state.header.context = _
    rw [hstate]
    rfl

end Run

namespace Call

variable {engine : Engine} {host : Host MemoryStore} {request : StartRequest}

/-- On an empty store a definition that an idle engine agrees to run is under way at its entries. -/
theorem begins (hidle : engine.active = []) (hempty : host.store.executions = [])
    (haccept : engine.accept request.workflow = .ok ())
    (hdeadline : 0 < engine.config.timeoutFor request.workflow) :
    ∃ run engine' host' execution,
      Leads (.starting request, engine, host)
        (.driving (scopeOf engine request.workflow) run, engine', host') ∧
      run.Underway engine' host' execution ∧ execution.log = [] ∧
      execution.header.context = request.context ∧ run.dispatched = [] ∧
      run.queue = request.workflow.entryNodes engine.config.isTrigger := by
  obtain ⟨header, created, hnew, hnow, hstore, -, hcreate⟩ :=
    Handle.create_cases request (engine.totalSteps request.workflow) host
  have hinsert : (ExecutionStore.insert host.store header).1 = .ok () := by
    simp [ExecutionStore.insert, MemoryStore.insert, MemoryStore.find?, hempty]
  have hstored := (LawfulStore.insert_ok hinsert).2
  rw [← hstore] at hstored
  let scope := scopeOf engine request.workflow
  let state := StoredExecution.state ⟨header, []⟩
  let active : Engine := { engine with active := [⟨state.id, false⟩] }
  have hactivate : engine.activate state.id = .ok active := by
    simp [Engine.activate, Engine.isActive, hidle, active]
  have hcreates : Moves (.starting request, engine, host)
      (.created request state, engine, created) := by
    unfold Moves next?
    simp only [haccept, hcreate hinsert]
    rfl
  have huncancelled : active.isCancelled state.id = false := by
    simp [Engine.isCancelled, active]
  have hdrives : Moves (.created request state, engine, created)
      (.driving scope (Run.start scope state false created).1, active,
        (Run.start scope state false created).2) := by
    unfold Moves next?
    simp only [hactivate, drive, huncancelled]
    rfl
  obtain ⟨id, steps, time, rfl⟩ := hnew
  have hfree : (Run.start scope state false created).1.Free active
      (Run.start scope state false created).2
      ⟨ExecutionState.newHeader id request.workflow.id request.userId request.context steps time,
        []⟩ := by
    refine ⟨?_, (ExecutionState.clean_state _).toLevel, ?_, rfl, huncancelled⟩
    · change LawfulStore.stored created.store _ = _
      rw [hstored]
      exact Function.update_self ..
    · exact Nat.lt_add_of_pos_right hdeadline
  obtain ⟨run, host', later, hleads, hunderway, hqueue, hdispatched, hlog, hcontext⟩ :=
    hfree.enters scope rfl rfl rfl
  exact ⟨run, active, host', later, .head hcreates (.head hdrives hleads), hunderway, hlog,
    hcontext, hdispatched, hqueue⟩

end Call

end WorkflowEngine
