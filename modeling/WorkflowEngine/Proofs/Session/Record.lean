import WorkflowEngine.Proofs.Session.Basic

/-!
How a working copy stands to the stored record, and what a run makes durable of it. Between two
commits the copy of a run is the record itself; a commit then adds at most one checkpoint, and
status, context and step of the new header are told by what the run was doing.

A run that is interrupted or given up is not at work in this sense.
-/
namespace WorkflowEngine

namespace StoredExecution

/-- The header accounts for the whole log, which is numbered from 0. -/
structure Numbered (execution : StoredExecution) : Prop where
  count : execution.header.checkpointCount = execution.log.length
  sequences : execution.log.map (·.sequence) = List.range execution.log.length

/-- The working copy of what is stored. -/
def state (execution : StoredExecution) : ExecutionState :=
  .ofRecord ⟨execution.header, execution.log⟩

/-- The working copy with an input on top, not yet saved. -/
def stateWith (execution : StoredExecution) (input : Option Context) : ExecutionState :=
  input.elim execution.state execution.state.updateContext

/-- What a commit makes of a record. -/
def extend (execution : StoredExecution) (commit : Commit) : StoredExecution :=
  ⟨commit.header, execution.log ++ commit.appended⟩

/-- The nodes that have a checkpoint. -/
def nodeIds (execution : StoredExecution) : List NodeId := execution.log.map (·.nodeId)

@[simp] theorem nodeIds_extend (execution : StoredExecution) (commit : Commit) :
    (execution.extend commit).nodeIds = execution.nodeIds ++ commit.appended.map (·.nodeId) := by
  simp [nodeIds, extend]

section

variable (execution : StoredExecution) (input : Option Context)

@[simp] theorem stateWith_status :
    (execution.stateWith input).status = execution.header.status := by
  cases input <;> rfl

@[simp] theorem stateWith_checkpoints :
    (execution.stateWith input).checkpoints = execution.log := by
  cases input <;> rfl

@[simp] theorem stateWith_checkpointedNodes :
    (execution.stateWith input).checkpointedNodes = execution.nodeIds := by
  cases input <;> rfl

end

theorem Numbered.assemble {execution : StoredExecution} (h : execution.Numbered) :
    ExecutionState.ofRecord (ExecutionStore.assemble execution.header execution.log) =
      execution.state := by
  unfold ExecutionStore.assemble state
  rw [h.count, List.take_length]

/-- The part of a numbered log from a position on. -/
theorem Numbered.filter {execution : StoredExecution} (h : execution.Numbered) (start : Nat) :
    execution.log.filter (start ≤ ·.sequence) = execution.log.drop start := by
  have hall : ∀ (log : List Checkpoint) (first : Nat),
      log.map (·.sequence) = List.range' first log.length →
        log.filter (start ≤ ·.sequence) = log.drop (start - first) := by
    intro log
    induction log with
    | nil => intro first _; simp
    | cons checkpoint rest ih =>
        intro first hsequences
        simp only [List.map_cons, List.length_cons, List.range'_succ, List.cons.injEq] at hsequences
        obtain ⟨hfirst, hrest⟩ := hsequences
        have ih := ih (first + 1) hrest
        by_cases hstart : start ≤ first
        · have hzero : start - first = 0 := by omega
          have hzero' : start - (first + 1) = 0 := by omega
          rw [hzero'] at ih
          simp [hfirst, hstart, hzero, ih]
        · have hsucc : start - first = (start - (first + 1)) + 1 := by omega
          rw [hsucc, List.drop_succ_cons, ← ih, List.filter_cons_of_neg]
          simpa [hfirst] using hstart
  have hlog := hall execution.log 0 (by rw [h.sequences, List.range_eq_range'])
  rwa [Nat.sub_zero] at hlog

end StoredExecution

namespace ExecutionState

/-- The working copy has read the record, and may have changed in memory since. -/
structure Level (state : ExecutionState) (execution : StoredExecution) : Prop where
  id : state.header.id = execution.header.id
  version : state.header.version = execution.header.version
  count : state.header.checkpointCount = execution.header.checkpointCount
  log : state.checkpoints = execution.log
  context : state.durableContext = execution.header.context
  step : state.durableStep = execution.header.currentStep

/-- Context and step are those of the record. -/
structure Clean (state : ExecutionState) (execution : StoredExecution) : Prop
    extends Level state execution where
  liveContext : state.header.context = execution.header.context
  liveStep : state.header.currentStep = execution.header.currentStep

/-- The record went on after the working copy read it. -/
structure Behind (state : ExecutionState) (execution : StoredExecution) : Prop where
  id : state.header.id = execution.header.id
  version : state.header.version < execution.header.version
  count : state.header.checkpointCount = state.checkpoints.length
  log : state.checkpoints <+: execution.log

theorem clean_state (execution : StoredExecution) : execution.state.Clean execution :=
  ⟨⟨rfl, rfl, rfl, rfl, rfl, rfl⟩, rfl, rfl⟩

theorem level_stateWith (execution : StoredExecution) (input : Option Context) :
    (execution.stateWith input).Level execution := by
  cases input <;> exact ⟨rfl, rfl, rfl, rfl, rfl, rfl⟩

theorem Level.discard {state : ExecutionState} {execution : StoredExecution}
    (h : state.Level execution) : state.discardUncommitted.Clean execution :=
  ⟨⟨h.id, h.version, h.count, h.log, h.context, h.step⟩, h.context, h.step⟩

theorem Behind.discard {state : ExecutionState} {execution : StoredExecution}
    (h : state.Behind execution) : state.discardUncommitted.Behind execution :=
  ⟨h.id, h.version, h.count, h.log⟩

/-- What is at rest is what is stored, also under an input that was never saved. -/
theorem discard_stateWith (execution : StoredExecution) (input : Option Context) :
    (execution.stateWith input).discardUncommitted = execution.state := by
  cases input <;> rfl

/-- Adopting a header with the part of the log that is missing is reading both. -/
theorem adopt_eq {state : ExecutionState} {execution : StoredExecution}
    (hcount : state.header.checkpointCount = state.checkpoints.length)
    (hlog : state.checkpoints <+: execution.log) (hnumbered : execution.Numbered)
    {header : ExecutionHeader} (hahead : state.header.checkpointCount ≤ header.checkpointCount) :
    state.adopt header
        (execution.log.filter (state.header.checkpointCount ≤ ·.sequence)) =
      .ofRecord (ExecutionStore.assemble header execution.log) := by
  obtain ⟨tail, htail⟩ := hlog
  have hdrop : execution.log.drop state.header.checkpointCount = tail := by
    rw [hcount, ← htail, List.drop_left]
  have htake : execution.log.take header.checkpointCount = state.checkpoints ++
      tail.take (header.checkpointCount - state.header.checkpointCount) := by
    rw [hcount] at hahead ⊢
    rw [← htail, List.take_append, List.take_of_length_le hahead]
  unfold adopt ofRecord ExecutionStore.assemble
  rw [hnumbered.filter, hdrop, htake]

/-- Who is behind catches up by reading the header and the rest of the log. -/
theorem Behind.adopt {state : ExecutionState} {execution : StoredExecution}
    (h : state.Behind execution) (hnumbered : execution.Numbered) :
    state.adopt execution.header
      (execution.log.filter (state.header.checkpointCount ≤ ·.sequence)) = execution.state := by
  have hahead : state.header.checkpointCount ≤ execution.header.checkpointCount := by
    rw [h.count, hnumbered.count]
    exact h.log.length_le
  rw [adopt_eq h.count h.log hnumbered hahead, hnumbered.assemble]

end ExecutionState

/-- A commit that replaces the record as it is by its next version. -/
structure Commit.Fits (commit : Commit) (execution : StoredExecution) : Prop where
  id : commit.header.id = execution.header.id
  expected : commit.expected = execution.header.version
  version : commit.header.version = execution.header.version + 1

theorem ExecutionState.Level.fits {state : ExecutionState} {execution : StoredExecution}
    (h : state.Level execution) (checkpoint : Option Checkpoint) (time : Timestamp) :
    (state.commit checkpoint time).Fits execution :=
  ⟨h.id, h.version, congrArg (· + 1) h.version⟩

/-- A store that refuses no commit but for its version accepts one that fits. -/
theorem Commit.Fits.accepted {σ : Type} [ExecutionStore σ] [LawfulStore σ] {store : σ}
    {commit : Commit} {execution : StoredExecution} {id : ExecutionId}
    (h : commit.Fits execution) (hmended : Mended store)
    (hstored : LawfulStore.stored store id = some execution) :
    (ExecutionStore.commit store commit).1 = .ok () ∧
      LawfulStore.stored (ExecutionStore.commit store commit).2 =
        Function.update (LawfulStore.stored store) id (some (execution.extend commit)) := by
  have hid : commit.header.id = id := h.id.trans (LawfulStore.stored_id hstored)
  rw [← hid] at hstored
  have hresult : (ExecutionStore.commit store commit).1 = .ok () := by
    rw [hmended store .refl commit execution hstored]
    simp [ExecutionHeader.checkVersion, h.expected]
  obtain ⟨before, hbefore, -, hafter⟩ := LawfulStore.commit_ok hresult
  cases hstored.symm.trans hbefore
  refine ⟨hresult, ?_⟩
  rw [hafter, hid]
  rfl

namespace Run

section

variable {scope : Scope} {run : Run} {demand : Demand} {execution : StoredExecution}

theorem Demands.level (h : run.Demands scope demand) (hlevel : run.state.Level execution) :
    demand.state.Level execution := by
  obtain ⟨_, _, _, _, hstate⟩ := h.state_eq
  rw [hstate]
  exact ⟨hlevel.id, hlevel.version, hlevel.count, hlevel.log, hlevel.context, hlevel.step⟩

theorem Demands.behind (h : run.Demands scope demand) (hbehind : run.state.Behind execution) :
    demand.state.Behind execution := by
  obtain ⟨_, _, _, _, hstate⟩ := h.state_eq
  rw [hstate]
  exact ⟨hbehind.id, hbehind.version, hbehind.count, hbehind.log⟩

/-- A commit that takes effect keeps the numbering. -/
theorem Demands.numbered (h : run.Demands scope demand) (hlevel : run.state.Level execution)
    (hnumbered : execution.Numbered) (time : Timestamp) :
    (execution.extend (demand.state.commit demand.checkpoint time)).Numbered := by
  have hcount : demand.state.header.checkpointCount = execution.log.length :=
    (h.level hlevel).count.trans hnumbered.count
  cases hcheckpoint : demand.checkpoint with
  | none =>
      constructor
      · simpa [StoredExecution.extend, ExecutionState.commit] using hcount
      · simpa [StoredExecution.extend, ExecutionState.commit] using hnumbered.sequences
  | some checkpoint =>
      have hsequence : checkpoint.sequence = execution.log.length :=
        (h.sequence_eq hcheckpoint).trans (hlevel.count.trans hnumbered.count)
      constructor
      · simp [StoredExecution.extend, ExecutionState.commit, hcount]
      · simp [StoredExecution.extend, ExecutionState.commit, hnumbered.sequences, hsequence,
          List.range_succ]

/-- Once a commit took effect, whoever asked for it is behind by it. -/
theorem Demands.behind_extend (h : run.Demands scope demand) (hlevel : run.state.Level execution)
    (hnumbered : execution.Numbered) (time : Timestamp) :
    demand.state.Behind (execution.extend (demand.state.commit demand.checkpoint time)) := by
  have hlevel := h.level hlevel
  refine ⟨rfl, Nat.lt_succ_self _, ?_, ?_⟩
  · rw [hlevel.count, hlevel.log]
    exact hnumbered.count
  · rw [hlevel.log]
    exact List.prefix_append _ _

/-- Between two commits, the working copy is the record. -/
def Ready (request : Request) (run : Run) (execution : StoredExecution) : Prop :=
  match run.stage with
  | .entering =>
    run.handle = ⟨execution.stateWith request.input?, none⟩ ∧
      execution.header.status.canBecome .running = true
  | .dispatching => run.handle = ⟨execution.state, none⟩ ∧ execution.header.status = .running
  | .executing _ => run.handle = ⟨execution.state, none⟩ ∧ execution.header.status = .running
  | _ => False

/-- How a run goes on once the commit it asked for took effect. -/
def resumed (run : Run) (demand : Demand) (execution : StoredExecution) : Run :=
  { run with
    handle := ⟨execution.state, none⟩
    queue := demand.queue ++ demand.purpose.successors
    dispatched := demand.dispatched
    stage := .dispatching }

theorem Ready.level {request : Request} (h : run.Ready request execution) :
    run.handle.flight = none ∧ run.state.Level execution := by
  unfold Ready at h
  unfold Run.state
  cases hstage : run.stage with
  | entering =>
      simp only [hstage] at h
      rw [h.1]
      exact ⟨rfl, ExecutionState.level_stateWith _ _⟩
  | dispatching | executing =>
      simp only [hstage] at h
      rw [h.1]
      exact ⟨rfl, (ExecutionState.clean_state execution).toLevel⟩
  | committing | settling | catchingUp | aborting | finished => simp [hstage] at h

theorem Ready.entering {request : Request} (h : run.Ready request execution)
    (hstage : run.stage = .entering) : run.state = execution.stateWith request.input? := by
  simp only [Ready, hstage] at h
  unfold Run.state
  rw [h.1]

theorem Ready.dispatching {request : Request} (h : run.Ready request execution)
    (hstage : run.stage = .dispatching) : run.state = execution.state := by
  simp only [Ready, hstage] at h
  unfold Run.state
  rw [h.1]

theorem Ready.executing {request : Request} (h : run.Ready request execution) {call : NodeCall}
    (hstage : run.stage = .executing call) : run.state = execution.state := by
  simp only [Ready, hstage] at h
  unfold Run.state
  rw [h.1]

/-- A node fails only between two commits after the first. -/
theorem Ready.failing {request : Request} (h : run.Ready request execution) {nodeId : NodeId}
    {name : String} {queue continuation : List NodeId}
    (hfails : run.Fails scope nodeId name queue continuation) :
    run.state = execution.state := by
  cases hfails with
  | unknown hstage => exact h.dispatching hstage
  | missing hstage => exact h.dispatching hstage
  | failed hstage => exact h.executing hstage

/-- The copy of a run at work differs from the record by an input at most. -/
theorem Ready.state_eq {request : Request} (h : run.Ready request execution) :
    ∃ context, run.state =
      { execution.state with header := { execution.header with context } } := by
  cases hstage : run.stage with
  | entering =>
      rw [h.entering hstage]
      cases request.input? <;> exact ⟨_, rfl⟩
  | dispatching => exact ⟨_, h.dispatching hstage⟩
  | executing call => exact ⟨_, h.executing hstage⟩
  | committing | settling | catchingUp | aborting | finished => simp [Ready, hstage] at h

/-- A run at work is not given up. -/
theorem Ready.not_aborting {request : Request} (h : run.Ready request execution)
    {cause : EngineError} : run.stage ≠ .aborting cause := by
  intro hstage
  simp [Ready, hstage] at h

theorem Ready.legal {request : Request} (h : run.Ready request execution) : run.Legal := by
  unfold Ready at h
  unfold Legal Run.state
  cases hstage : run.stage with
  | entering =>
      simp only [hstage] at h ⊢
      rw [h.1]
      cases request.input? <;> exact h.2
  | dispatching | executing =>
      simp only [hstage] at h ⊢
      rw [h.1]
      exact h.2
  | committing | settling | catchingUp | aborting | finished => simp [hstage] at h

/-- What a run at work makes durable of the record it has at hand. -/
inductive Makes (request : Request) (scope : Scope) (run : Run) (execution : StoredExecution) :
    Demand → Commit → Prop
  | opening {state commit} (hstage : run.stage = .entering) (happended : commit.appended = [])
      (hstatus : commit.header.status = .running)
      (hstep : commit.header.currentStep = execution.header.currentStep)
      (hcontext : commit.header.context = request.input?.elim execution.header.context
        (Fields.merge execution.header.context)) :
      Makes request scope run execution ⟨state, none, run.queue, run.dispatched, .entry⟩ commit
  | closing {state commit} (hstage : run.stage = .dispatching) (hqueue : run.queue = [])
      (happended : commit.appended = []) (hstatus : commit.header.status = .completed)
      (hstep : commit.header.currentStep = execution.header.currentStep)
      (hcontext : commit.header.context = execution.header.context) :
      Makes request scope run execution ⟨state, none, run.queue, run.dispatched, .conclusion⟩ commit
  | failing {nodeId name queue continuation state checkpoint failure commit}
      (hfails : run.Fails scope nodeId name queue continuation)
      (happended : commit.appended = [checkpoint]) (hstatus : commit.header.status = .failed)
      (hstep : commit.header.currentStep = execution.header.currentStep)
      (hcontext : commit.header.context = execution.header.context)
      (hid : checkpoint.nodeId = nodeId) (hpending : checkpoint.pending = continuation)
      (herror : checkpoint.isError = true) (hlive : checkpoint.context = commit.header.context)
      (hcounted : checkpoint.stepNumber = commit.header.currentStep) :
      Makes request scope run execution
        ⟨state, some checkpoint, queue, run.dispatched, .failure failure⟩ commit
  | answering {call outcome state checkpoint purpose commit} (hstage : run.stage = .executing call)
      (hanswer : call.rest.answer? = some (.ok outcome))
      (hpurpose : outcome.isPause = true ∧ purpose = .pause call.node.id ∨
        outcome.isPause = false ∧ ∃ duration,
          purpose = .completion call.node.id (followed scope call.node outcome) duration)
      (happended : commit.appended = [checkpoint])
      (hstatus : commit.header.status = if outcome.isPause then .paused else .running)
      (hstep : commit.header.currentStep = execution.header.currentStep + 1)
      (hcontext : commit.header.context = outcome.context) (hid : checkpoint.nodeId = call.node.id)
      (hpending : checkpoint.pending = call.pending ++ followed scope call.node outcome)
      (herror : checkpoint.error = none) (hlive : checkpoint.context = commit.header.context)
      (hcounted : checkpoint.stepNumber = commit.header.currentStep) :
      Makes request scope run execution
        ⟨state, some checkpoint, run.queue, call.node.id :: run.dispatched, purpose⟩ commit

theorem Demands.makes {request : Request} {commit : Commit} (h : run.Demands scope demand)
    (hready : run.Ready request execution) (time : Timestamp)
    (hcommit : commit = demand.state.commit demand.checkpoint time) :
    run.Makes request scope execution demand commit := by
  subst hcommit
  cases h with
  | entry hstage hstate =>
      obtain ⟨-, rfl⟩ := ExecutionState.setStatus_ok hstate
      have hcopy := hready.entering hstage
      have hheader : run.state.header.currentStep = execution.header.currentStep ∧
          run.state.header.context = request.input?.elim execution.header.context
            (Fields.merge execution.header.context) := by
        rw [hcopy]
        cases request.input? <;> exact ⟨rfl, rfl⟩
      exact .opening hstage rfl rfl hheader.1 hheader.2
  | conclusion hstage hqueue hstate =>
      obtain ⟨-, rfl⟩ := ExecutionState.complete_ok hstate
      have hcopy := hready.dispatching hstage
      refine .closing hstage hqueue rfl rfl ?_ ?_ <;>
        simp only [ExecutionState.commit, hcopy] <;> rfl
  | failure id taken hfails hstate =>
      obtain ⟨-, rfl⟩ := ExecutionState.fail_ok hstate
      have hcopy := hready.failing hfails
      refine .failing hfails rfl rfl ?_ ?_ rfl rfl rfl rfl rfl <;>
        simp only [ExecutionState.commit, hcopy] <;> rfl
  | completion id taken duration hstage hanswer hpause =>
      have hcopy := hready.executing hstage
      have hrunning : run.state.status = .running := by
        have hlegal := hready.legal
        simp only [Legal, hstage] at hlegal
        exact hlegal
      refine .answering hstage hanswer (Or.inr ⟨hpause, duration, rfl⟩) rfl ?_ ?_ rfl rfl rfl rfl
        rfl rfl
      · rw [hpause]
        exact hrunning
      · simp only [ExecutionState.commit, succeeded, hcopy]
        rfl
  | pause id taken hstage hanswer hpause hstate =>
      obtain ⟨-, rfl⟩ := ExecutionState.setStatus_ok hstate
      have hcopy := hready.executing hstage
      refine .answering hstage hanswer (Or.inl ⟨hpause, rfl⟩) rfl ?_ ?_ rfl rfl rfl rfl rfl rfl
      · rw [hpause]
        rfl
      · simp only [ExecutionState.commit, succeeded, hcopy]
        rfl
  | abandonment hstage => exact absurd hstage hready.not_aborting

end

end Run

end WorkflowEngine
