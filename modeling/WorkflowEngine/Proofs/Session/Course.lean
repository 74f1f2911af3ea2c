import WorkflowEngine.Proofs.Graph.Valid
import WorkflowEngine.Proofs.Run.Walk
import WorkflowEngine.Proofs.Session.Ledger

/-!
The course of an execution. As long as no commit is refused, its chronicle is a walk that may change
its definition at every save: each checkpoint is the visit of the next node of the queue that the
log leaves, with the context the chronicle tells. A record says that its execution is completed only
when nothing is left to visit.

A run looks at its own queue and its own list of nodes. What ties these to the log is `Run.Follows`.
-/
namespace WorkflowEngine

/-- A definition that an engine with this configuration agrees to run. -/
def Scope.Accepted (scope : Scope) : Prop :=
  ({ config := scope.config } : Engine).accept scope.workflow = .ok ()

theorem Engine.accepted_scopeOf {engine : Engine} {workflow : Workflow}
    (h : engine.accept workflow = .ok ()) : (Call.scopeOf engine workflow).Accepted :=
  (accept_congr rfl workflow).trans h

theorem Scope.Accepted.valid {scope : Scope} (h : scope.Accepted) :
    scope.workflow.validate = .ok () := by
  unfold Accepted Engine.accept at h
  cases hvalid : scope.workflow.validate with
  | error cause => simp [hvalid] at h
  | ok _ => rfl

/-- A chronicle as a walk whose scope may change at every save. -/
inductive Course : Chronicle → Prop
  | created (request : StartRequest) : Course [.created request]
  | saved {chronicle : Chronicle} {scope : Scope} (input : Option Context) (h : Course chronicle)
      (haccepted : scope.Accepted) (hdeadline : 0 < scope.deadlineMs) :
      Course (chronicle ++ [.saved scope input])
  | appended {chronicle : Chronicle} {scope : Scope} {checkpoint : Checkpoint}
      {outcome : Option NodeOutcome} (h : Course chronicle) (hscope : chronicle.scope? = some scope)
      (hvisits : scope.Visits chronicle.context (chronicle.checkpoints.map (·.nodeId))
        (scope.continuation chronicle.checkpoints) checkpoint outcome) :
      Course (chronicle ++ [.appended checkpoint (Scope.statusAfter outcome)])

/-- Only definitions that can be run, and for some time, are followed. -/
theorem Course.runnable {chronicle : Chronicle} {scope : Scope} {input : Option Context}
    (h : Course chronicle) (hsaved : Deed.saved scope input ∈ chronicle) :
    scope.Accepted ∧ 0 < scope.deadlineMs := by
  induction h with
  | created => simp at hsaved
  | saved _ _ haccepted hdeadline ih =>
      rcases List.mem_append.mp hsaved with hold | hnew
      · exact ih hold
      · rw [List.mem_singleton] at hnew
        cases hnew
        exact ⟨haccepted, hdeadline⟩
  | appended _ _ _ ih =>
      rcases List.mem_append.mp hsaved with hold | hnew
      · exact ih hold
      · simp at hnew

/-- A course whose saves all follow one scope and set no input is a walk of that scope. -/
theorem Course.trail {chronicle : Chronicle} {scope : Scope} (h : Course chronicle)
    (hsaves : ∀ saved input, Deed.saved saved input ∈ chronicle → saved = scope ∧ input = none) :
    ∃ request rest visits, chronicle = .created request :: rest ∧
      Trail scope request.context visits ∧ logOf visits = chronicle.checkpoints ∧
      chronicle.context = Chronicle.lastContext request.context chronicle.checkpoints ∧
      ∀ visit ∈ visits,
        Deed.appended visit.checkpoint (Scope.statusAfter visit.outcome) ∈ chronicle := by
  induction h with
  | created request =>
      refine ⟨request, [], [], rfl, .nil, rfl, rfl, ?_⟩
      intro visit hvisit
      cases hvisit
  | @saved chronicle saved input h _ _ ih =>
      obtain ⟨request, rest, visits, hbegun, htrail, hlog, hcontext, hdeeds⟩ :=
        ih fun saved input hsaved => hsaves saved input (List.mem_append_left _ hsaved)
      obtain rfl := (hsaves saved input (by simp)).2
      refine ⟨request, rest ++ [.saved saved none], visits, by rw [hbegun]; rfl, htrail, ?_, ?_, ?_⟩
      · rw [Chronicle.checkpoints_saved, hlog]
      · rw [Chronicle.context_saved _ _ _ (by simp [hbegun]), Chronicle.checkpoints_saved]
        exact hcontext
      · exact fun visit hvisit => List.mem_append_left _ (hdeeds visit hvisit)
  | @appended chronicle follows checkpoint outcome h hscope hvisits ih =>
      obtain ⟨request, rest, visits, hbegun, htrail, hlog, hcontext, hdeeds⟩ :=
        ih fun saved input hsaved => hsaves saved input (List.mem_append_left _ hsaved)
      obtain ⟨input, hsaved⟩ := Chronicle.mem_of_scope? hscope
      obtain rfl := (hsaves follows input (List.mem_append_left _ hsaved)).1
      have hvisited : visitedBy visits = chronicle.checkpoints.map (·.nodeId) := by
        rw [← hlog]
        simp [visitedBy, logOf]
      refine ⟨request, rest ++ [_], visits ++ [⟨checkpoint, outcome⟩], by rw [hbegun]; rfl,
        .visit htrail ?_, ?_, ?_, ?_⟩
      · rw [hlog, hvisited, ← hcontext]
        exact hvisits
      · rw [logOf_append, Chronicle.checkpoints_appended, hlog]
      · rw [Chronicle.context_appended, Chronicle.checkpoints_appended]
        simp [Chronicle.lastContext]
      · intro visit hvisit
        rcases List.mem_append.mp hvisit with hold | hnew
        · exact List.mem_append_left _ (hdeeds visit hold)
        · rw [List.mem_singleton] at hnew
          rw [hnew]
          simp

/-- A record whose chronicle is a course, and that is completed only at its end. -/
structure Chronicle.Recounts (chronicle : Chronicle) (execution : StoredExecution) : Prop where
  tells : chronicle.Tells execution
  course : Course chronicle
  exhausted : execution.header.status = .completed →
    ∃ scope, chronicle.scope? = some scope ∧
      scope.front execution.nodeIds (scope.continuation execution.log) = []

namespace Run

/-- The queue of a run and the nodes it does not call again, as its record has them. -/
def Follows (scope : Scope) (run : Run) (chronicle : Chronicle) (execution : StoredExecution) :
    Prop :=
  match run.stage with
  | .entering =>
    run.queue = scope.continuation execution.log ∧ run.dispatched = execution.nodeIds
  | .dispatching =>
    chronicle.scope? = some scope ∧ (∀ id, id ∈ execution.nodeIds ↔ id ∈ run.dispatched) ∧
      scope.front execution.nodeIds (scope.continuation execution.log) =
        scope.front execution.nodeIds run.queue
  | .executing call =>
    chronicle.scope? = some scope ∧ (∀ id, id ∈ execution.nodeIds ↔ id ∈ run.dispatched) ∧
      scope.front execution.nodeIds (scope.continuation execution.log) =
        call.node.id :: call.pending ∧
      run.queue = call.pending ∧ scope.workflow.node? call.node.id = some call.node ∧
      ∃ executor ctx, scope.registry.get? call.node.nodeType = some executor ∧
        ctx.nodeId = call.node.id ∧ ctx.config = call.node.config ∧
        ctx.context = execution.header.context ∧
        call.rest.answer? = (executor.execute ctx).answer?
  | _ => True

/-- What a run that was started, and not resumed, has made durable so far: successes only. -/
def Fresh (start : StartRequest) (scope : Scope) (chronicle : Chronicle) : Prop :=
  ∃ log : List Checkpoint, chronicle =
    .created start :: .saved scope none :: log.map fun checkpoint => .appended checkpoint .running

/-- A run follows its scope; one that was started has gone on without a failure or a refusal. -/
structure Walks (request : Request) (scope : Scope) (run : Run) (chronicle : Chronicle)
    (execution : StoredExecution) : Prop where
  deadline : run.deadlineMs = scope.deadlineMs
  accepted : scope.Accepted
  fresh : ∀ start, request = .start start → scope.workflow = start.workflow ∧
    (run.stage = .entering → chronicle = [.created start]) ∧
    (run.stage ≠ .entering → Fresh start scope chronicle)
  follows : Deed.refused ∉ chronicle → run.Follows scope chronicle execution

/-- A run that was started came to its end. -/
def Ends (request : Request) (scope : Scope) (status : ExecutionStatus) (chronicle : Chronicle)
    (execution : StoredExecution) : Prop :=
  ∀ start, request = .start start → status = .completed → scope.workflow = start.workflow ∧
    execution.header.status = .completed ∧ Fresh start scope chronicle ∧
    chronicle.Recounts execution

namespace Walks

variable {request : Request} {scope : Scope} {run : Run} {chronicle : Chronicle}
  {execution : StoredExecution} {demand : Demand} {commit : Commit}

/-- A node that fails is the next of the walk, and everything that follows it joins the queue. -/
private theorem failing (h : Walks request scope run chronicle execution)
    (hclear : Deed.refused ∉ chronicle) {nodeId : NodeId} {name : String}
    {queue continuation : List NodeId} (hfails : run.Fails scope nodeId name queue continuation) :
    chronicle.scope? = some scope ∧ ∃ pending,
      scope.front execution.nodeIds (scope.continuation execution.log) = nodeId :: pending ∧
      continuation = pending ++ scope.workflow.successors nodeId none := by
  have hfollows := h.follows hclear
  have hdispatching : run.stage = .dispatching → ∀ id pending, run.queue = id :: pending →
      id ∉ run.dispatched → scope.workflow.isTriggerId scope.config.isTrigger id = false →
      chronicle.scope? = some scope ∧
        scope.front execution.nodeIds (scope.continuation execution.log) = id :: pending := by
    intro hstage id pending hqueue hnew htrigger
    simp only [Follows, hstage] at hfollows
    obtain ⟨hscope, hvisited, hfront⟩ := hfollows
    rw [hfront, hqueue]
    refine ⟨hscope, Scope.front_visit ?_⟩
    simp [Scope.passes, htrigger, hvisited, hnew]
  cases hfails with
  | unknown hstage hqueue hnew hnode =>
      obtain ⟨hscope, hfront⟩ := hdispatching hstage _ _ hqueue hnew
        (Scope.isTriggerId_of_unknown hnode)
      refine ⟨hscope, _, hfront, ?_⟩
      rw [Workflow.successors_of_unknown h.accepted.valid hnode, List.append_nil]
  | missing hstage hqueue hnew hnode htrigger hexecutor =>
      obtain ⟨hscope, hfront⟩ := hdispatching hstage _ _ hqueue hnew
        ((Scope.isTriggerId_of_node hnode).trans htrigger)
      exact ⟨hscope, _, hfront, rfl⟩
  | @failed call hstage =>
      simp only [Follows, hstage] at hfollows
      exact ⟨hfollows.1, call.pending, hfollows.2.2.1, rfl⟩

/-- A node that answers is the next of the walk, called with the context of the record. -/
private theorem answering (h : Walks request scope run chronicle execution)
    (hclear : Deed.refused ∉ chronicle) {call : NodeCall} {outcome : NodeOutcome}
    (hstage : run.stage = .executing call) (hanswer : call.rest.answer? = some (.ok outcome))
    {checkpoint : Checkpoint} (hid : checkpoint.nodeId = call.node.id)
    (hcontext : checkpoint.context = outcome.context)
    (hpending : checkpoint.pending = call.pending ++ followed scope call.node outcome)
    (herror : checkpoint.error = none) :
    scope.Visits execution.header.context execution.nodeIds (scope.continuation execution.log)
      checkpoint (some outcome) := by
  have hfollows := h.follows hclear
  simp only [Follows, hstage] at hfollows
  obtain ⟨-, -, hfront, -, hnode, executor, ctx, hexecutor, hctxid, hconfig, hctx, hrest⟩ :=
    hfollows
  exact .success hfront hnode hexecutor hctxid hconfig hctx (hrest ▸ hanswer)
    ⟨hid, hcontext, hpending, herror⟩

private theorem course_appended (hrest : chronicle.Recounts execution)
    (hscope : chronicle.scope? = some scope) {checkpoint : Checkpoint}
    {outcome : Option NodeOutcome} {status : ExecutionStatus}
    (hvisits : scope.Visits execution.header.context execution.nodeIds
      (scope.continuation execution.log) checkpoint outcome)
    (hstatus : status = Scope.statusAfter outcome) :
    Course (chronicle ++ [.appended checkpoint status]) := by
  rw [hstatus]
  refine .appended hrest.course hscope ?_
  rw [← hrest.tells.log, ← hrest.tells.context]
  exact hvisits

/-- What a run makes durable continues the course. -/
private theorem recounts (h : Walks request scope run chronicle execution)
    (hclear : Deed.refused ∉ chronicle) (hrest : chronicle.Recounts execution)
    (hdeadline : 0 < run.deadlineMs) (hmakes : run.Makes request scope execution demand commit) :
    Chronicle.Recounts (chronicle ++ commit.deeds scope request.input? (.ok ()))
      (execution.extend commit) := by
  have htells := hrest.tells.extend hmakes
  have hfollows := h.follows hclear
  cases hmakes with
  | opening hstage happended hstatus =>
      rw [Commit.deeds_opening hstatus happended] at htells ⊢
      refine ⟨htells, .saved _ hrest.course h.accepted (h.deadline ▸ hdeadline), ?_⟩
      intro hover
      exact absurd (hstatus.symm.trans hover) (by simp)
  | closing hstage hqueue happended hstatus =>
      have hclosing : commit.header.status ≠ .running := by simp [hstatus]
      rw [Commit.deeds_closing hclosing happended, List.append_nil] at htells ⊢
      refine ⟨htells, hrest.course, fun _ => ⟨scope, ?_⟩⟩
      simp only [Follows, hstage] at hfollows
      obtain ⟨hscope, -, hfront⟩ := hfollows
      refine ⟨hscope, ?_⟩
      have hlog : (execution.extend commit).log = execution.log := by
        simp [StoredExecution.extend, happended]
      rw [hlog, StoredExecution.nodeIds_extend, happended, List.map_nil, List.append_nil, hfront,
        hqueue]
      rfl
  | failing hfails happended hstatus hstep hcontext hid hpending herror hlive =>
      obtain ⟨hscope, pending, hfront, hcontinuation⟩ := h.failing hclear hfails
      rw [Commit.deeds_appended happended] at htells ⊢
      refine ⟨htells, ?_, ?_⟩
      · refine course_appended hrest hscope (.failure (hid.symm ▸ hfront) ?_) hstatus
        exact ⟨hlive.trans hcontext, herror, by rw [hpending, hcontinuation, hid]⟩
      · intro hover
        exact absurd (hstatus.symm.trans hover) (by simp)
  | @answering call outcome _ checkpoint _ _ hstage hanswer _ happended hstatus hstep hcontext hid
      hpending herror hlive =>
      simp only [Follows, hstage] at hfollows
      rw [Commit.deeds_appended happended] at htells ⊢
      refine ⟨htells, ?_, ?_⟩
      · exact course_appended hrest hfollows.1
          (h.answering hclear hstage hanswer hid (hlive.trans hcontext) hpending herror) hstatus
      · intro hover
        change commit.header.status = .completed at hover
        rw [hstatus] at hover
        cases hpause : outcome.isPause <;> simp [hpause] at hover

/-- A successful commit continues what a started run has made durable. -/
private theorem fresh_append {start : StartRequest} {checkpoint : Checkpoint}
    (h : Fresh start scope chronicle) :
    Fresh start scope (chronicle ++ [.appended checkpoint .running]) := by
  obtain ⟨log, rfl⟩ := h
  exact ⟨log ++ [checkpoint], by simp⟩

/-- A run that goes on after a commit still follows its scope. -/
private theorem resumed (h : Walks request scope run chronicle execution)
    (hmakes : run.Makes request scope execution demand commit)
    (hnext : demand.purpose.next = .dispatching) :
    Walks request scope (run.resumed demand (execution.extend commit))
      (chronicle ++ commit.deeds scope request.input? (.ok ())) (execution.extend commit) := by
  cases hmakes with
  | opening hstage happended hstatus =>
      rw [Commit.deeds_opening hstatus happended]
      refine ⟨h.deadline, h.accepted, ?_, ?_⟩
      · rintro start rfl
        obtain ⟨hworkflow, hbegun, -⟩ := h.fresh start rfl
        refine ⟨hworkflow, fun hentering => (by cases hentering), fun _ => ⟨[], ?_⟩⟩
        rw [hbegun hstage]
        rfl
      · intro hclear
        have hfollows := h.follows fun hrefused => hclear (List.mem_append_left _ hrefused)
        simp only [Follows, hstage] at hfollows
        obtain ⟨hqueue, hdispatched⟩ := hfollows
        have hlog : (execution.extend commit).log = execution.log := by
          simp [StoredExecution.extend, happended]
        refine ⟨Chronicle.scope?_saved .., ?_, ?_⟩
        · intro id
          change id ∈ (execution.extend commit).log.map (·.nodeId) ↔ id ∈ run.dispatched
          rw [hlog, hdispatched]
          rfl
        · change scope.front _ (scope.continuation (execution.extend commit).log) =
            scope.front _ (run.queue ++ [])
          rw [hlog, List.append_nil, hqueue]
  | @answering call outcome _ checkpoint _ _ hstage _ hpurpose happended hstatus _ _ hid hpending =>
      -- A pause ends the run, so only a completion goes on.
      obtain ⟨-, rfl⟩ | ⟨hpause, duration, rfl⟩ := hpurpose
      · cases hnext
      rw [Commit.deeds_appended happended, hstatus, hpause]
      refine ⟨h.deadline, h.accepted, ?_, ?_⟩
      · rintro start rfl
        obtain ⟨hworkflow, -, hfresh⟩ := h.fresh start rfl
        refine ⟨hworkflow, fun hentering => (by cases hentering), fun _ => ?_⟩
        exact fresh_append (hfresh (by simp [hstage]))
      · intro hclear
        have hfollows := h.follows fun hrefused => hclear (List.mem_append_left _ hrefused)
        simp only [Follows, hstage] at hfollows
        obtain ⟨hscope, hvisited, -, hqueue, -⟩ := hfollows
        have hlog : (execution.extend commit).log = execution.log ++ [checkpoint] := by
          simp [StoredExecution.extend, happended]
        refine ⟨(Chronicle.scope?_appended ..).trans hscope, ?_, ?_⟩
        · intro id
          change id ∈ (execution.extend commit).nodeIds ↔ id ∈ call.node.id :: run.dispatched
          rw [StoredExecution.nodeIds_extend, happended, List.mem_append, hvisited]
          simp [hid, or_comm]
        · change scope.front _ (scope.continuation (execution.extend commit).log) =
            scope.front _ (run.queue ++ followed scope call.node outcome)
          rw [hlog, Scope.continuation_append, hpending, hqueue]
  | closing | failing => cases hnext

private theorem clear_of_fresh {start : StartRequest} (h : Fresh start scope chronicle) :
    Deed.refused ∉ chronicle := by
  obtain ⟨log, rfl⟩ := h
  simp

/-- A run that was started and has nothing left to visit comes to its end. -/
private theorem ends (h : Walks request scope run chronicle execution)
    (hrest : Deed.refused ∉ chronicle → chronicle.Recounts execution)
    (hdeadline : 0 < run.deadlineMs) (hmakes : run.Makes request scope execution demand commit)
    {status : ExecutionStatus} (hnext : demand.purpose.next = .finished (.ok status)) :
    Ends request scope status (chronicle ++ commit.deeds scope request.input? (.ok ()))
      (execution.extend commit) := by
  rintro start rfl rfl
  obtain ⟨hworkflow, -, hfresh⟩ := h.fresh start rfl
  have hmade := hmakes
  cases hmakes with
  | closing hstage hqueue happended hstatus =>
      have hfresh := hfresh (by simp [hstage])
      have hclear := clear_of_fresh hfresh
      have hclosing : commit.header.status ≠ .running := by simp [hstatus]
      have hrecounts := h.recounts hclear (hrest hclear) hdeadline hmade
      rw [Commit.deeds_closing hclosing happended, List.append_nil] at hrecounts ⊢
      exact ⟨hworkflow, hstatus, hfresh, hrecounts⟩
  | answering _ _ hpurpose =>
      obtain ⟨-, rfl⟩ | ⟨-, duration, rfl⟩ := hpurpose <;> cases hnext
  | opening | failing => cases hnext

/-- A run begins where the log of its record leaves off. -/
theorem initialQueue_eq {state : ExecutionState} {log : List Checkpoint}
    (hlog : state.checkpoints = log) (hstatus : log = [] ∨ state.status ≠ .pending) :
    initialQueue scope state = scope.continuation log := by
  unfold initialQueue ExecutionState.resumePoint? Scope.continuation
  rw [hlog]
  cases hlast : log.getLast? with
  | none => rfl
  | some checkpoint =>
      have hpending : state.status ≠ .pending := by
        refine hstatus.resolve_left ?_
        rintro rfl
        cases hlast
      simp [hpending]

/-- A run that resumes an execution begins where its log leaves off. -/
theorem initialQueue_resumed (h : execution.state.canResume = true) (input : Option Context) :
    initialQueue scope (execution.stateWith input) = scope.continuation execution.log := by
  refine initialQueue_eq (execution.stateWith_checkpoints input) (Or.inr ?_)
  intro hpending
  have hstatus : execution.state.status = .pending :=
    (execution.stateWith_status input).symm.trans hpending
  simp [ExecutionState.canResume, hstatus] at h

end Walks

end Run

theorem course_conduct :
    Conduct (fun chronicle execution => Deed.refused ∉ chronicle → chronicle.Recounts execution)
      Run.Walks Run.Ends where
  create := by
    intro request header hnew hclear
    refine ⟨ledger_conduct.create hnew hclear, .created request, ?_⟩
    obtain ⟨_, _, _, rfl⟩ := hnew
    intro hover
    cases hover
  start := by
    rintro engine request header cancelled σ host haccept -
    refine ⟨rfl, Engine.accepted_scopeOf haccept, ?_, fun _ => ⟨?_, rfl⟩⟩
    · intro start hstart
      cases hstart
      exact ⟨rfl, fun _ => rfl, fun hstage => absurd rfl hstage⟩
    · have hlog : (StoredExecution.state ⟨header, []⟩).checkpoints = [] := rfl
      exact Run.Walks.initialQueue_eq hlog (Or.inl rfl)
  resume := by
    intro engine request workflow cancelled σ host chronicle execution _ _ hresume haccept
    refine ⟨rfl, Engine.accepted_scopeOf haccept, ?_, fun _ =>
      ⟨Run.Walks.initialQueue_resumed hresume request.input,
        execution.stateWith_checkpointedNodes request.input⟩⟩
    intro start hstart
    cases hstart
  attend _ h := ⟨h.deadline, h.accepted, h.fresh, h.follows⟩
  skip := by
    intro request scope run chronicle execution nodeId pending h hstage hqueue hpass
    refine ⟨h.deadline, h.accepted, h.fresh, ?_⟩
    intro hclear
    have hfollows := h.follows hclear
    simp only [Run.Follows, hstage] at hfollows ⊢
    obtain ⟨hscope, hvisited, hfront⟩ := hfollows
    refine ⟨hscope, hvisited, hfront.trans ?_⟩
    rw [hqueue]
    refine Scope.front_skip ?_
    rcases hpass with hdispatched | ⟨node, hnode, htrigger⟩
    · simp [Scope.passes, (hvisited nodeId).mpr hdispatched]
    · simp [Scope.passes, Scope.isTriggerId_of_node hnode, htrigger]
  call := by
    intro request scope run chronicle execution node pending executor call earlier h hready hstage
      hqueue hnew hnode htrigger hexecutor hcall hpending hrest
    refine ⟨h.deadline, h.accepted, ?_, ?_⟩
    · intro start hstart
      obtain ⟨hworkflow, -, hfresh⟩ := h.fresh start hstart
      exact ⟨hworkflow, fun hentering => (by cases hentering), fun _ => hfresh (by simp [hstage])⟩
    · intro hclear
      have hfollows := h.follows hclear
      simp only [Run.Follows, hstage] at hfollows ⊢
      obtain ⟨hscope, hvisited, hfront⟩ := hfollows
      subst hcall hpending
      refine ⟨hscope, hvisited, ?_, rfl, hnode, executor, run.nodeContext scope call.node earlier,
        hexecutor, rfl, rfl, ?_, by rw [hrest]⟩
      · rw [hfront, hqueue]
        refine Scope.front_visit ?_
        simp [Scope.passes, Scope.isTriggerId_of_node hnode, htrigger, hvisited, hnew]
      · exact congrArg (·.header.context) (hready.dispatching hstage)
  unfold := by
    intro request scope run chronicle execution call call' attentive h hstage hnode hpending hrest
    refine ⟨h.deadline, h.accepted, ?_, ?_⟩
    · intro start hstart
      obtain ⟨hworkflow, -, hfresh⟩ := h.fresh start hstart
      exact ⟨hworkflow, fun hentering => (by cases hentering), fun _ => hfresh (by simp [hstage])⟩
    · intro hclear
      have hfollows := h.follows hclear
      simp only [Run.Follows, hstage] at hfollows ⊢
      rw [hnode, hpending, hrest]
      exact hfollows
  commit := by
    rintro request scope run chronicle execution demand time h hrest - hready hdeadline hdemand
      commit hcommit later rfl
    have hmakes := hdemand.makes hready time hcommit
    refine ⟨?_, h.resumed hmakes, ?_⟩
    · intro hclear
      have hbefore : Deed.refused ∉ chronicle :=
        fun hrefused => hclear (List.mem_append_left _ hrefused)
      exact h.recounts hbefore (hrest hbefore) hdeadline hmakes
    · exact fun status hnext => h.ends hrest hdeadline hmakes hnext
  fail := by
    intro chronicle execution header hrest hnumbered hid hstatus hcount hcurrent hclear
    have hrecounts := hrest hclear
    refine ⟨ledger_conduct.fail (fun _ => hrecounts.tells) hnumbered hid hstatus hcount hcurrent
      hclear, hrecounts.course, ?_⟩
    intro hover
    exact absurd (hstatus.symm.trans hover) (by simp)
  refuse := by
    intro chronicle execution _ hclear
    exact absurd (List.mem_append_right _ List.mem_cons_self) hclear

end WorkflowEngine
