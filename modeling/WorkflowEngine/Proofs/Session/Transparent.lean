import WorkflowEngine.Proofs.Run.Smooth
import WorkflowEngine.Proofs.Session.Course
import WorkflowEngine.Proofs.Session.Undisturbed

/-!
Pauses, failures and interruptions leave no trace in what an execution comes to. If it ends
completed, after however many runs, its log tells the same as that of one undisturbed run of the
smooth version of its definition, and it ends with the same context.

Inputs of resumed runs and changes of the definition are not covered, nor are stores that refuse
commits.
-/
namespace WorkflowEngine

/-- What a checkpoint tells of a walk. -/
def Checkpoint.stop (checkpoint : Checkpoint) : NodeId × Context × List NodeId :=
  (checkpoint.nodeId, checkpoint.context, checkpoint.pending)

/-- The nodes that have an error checkpoint. -/
def StoredExecution.failedIds (execution : StoredExecution) : List NodeId :=
  (execution.log.filter (·.isError)).map (·.nodeId)

/-- The scope of the smooth version. -/
def Scope.smoothed (scope : Scope) (failed : List NodeId) : Scope :=
  Call.scopeOf (scope.smooth failed) scope.workflow

namespace Run

/-- An undisturbed run that stands where a walk does. -/
structure Replays (scope : Scope) (initial : Context) (visits : List Visit) (engine : Engine)
    (run : Run) (host : Host MemoryStore) (execution : StoredExecution) : Prop
    extends Underway engine run host execution where
  log : execution.log.map Checkpoint.stop = (logOf visits).map Checkpoint.stop
  context : execution.header.context = Chronicle.lastContext initial (logOf visits)
  queue : run.queue = scope.continuation (logOf visits)
  dispatched : ∀ id, id ∈ run.dispatched ↔ id ∈ visitedBy visits

namespace Replays

variable {scope : Scope} {initial : Context} {visits : List Visit} {engine : Engine} {run : Run}
  {host : Host MemoryStore} {execution : StoredExecution} {failed : List NodeId}

/-- One visit of the walk is one visit of the run. -/
theorem visit (h : run.Replays scope initial visits engine host execution) {next : Visit}
    (hnext : scope.Visits (Chronicle.lastContext initial (logOf visits)) (visitedBy visits)
      (scope.continuation (logOf visits)) next.checkpoint next.outcome)
    (hqueue : ∀ id ∈ scope.continuation (logOf visits), id ∈ scope.workflow.nodeIds)
    (hfunctional : scope.Functional)
    (hfailed : next.checkpoint.nodeId ∈ failed ↔ next.outcome = none) :
    ∃ run' host' later,
      Call.Leads (.driving (scope.smoothed failed) run, engine, host)
        (.driving (scope.smoothed failed) run', engine, host') ∧
      run'.Replays scope initial (visits ++ [next]) engine host' later := by
  obtain ⟨pending, hfront, hpending⟩ := hnext.step
  obtain ⟨node, answer, hid, hnode, hanswer, hpause, hcontext, hfollowed⟩ :=
    hnext.smooth hqueue hfunctional hfailed
  -- The queue of the run may still begin with nodes that the walk passes over.
  have hskipped : (scope.smoothed failed).front run.dispatched run.queue = node.id :: pending := by
    rw [hid, ← hfront, h.queue]
    exact Scope.front_congr h.dispatched
  have hskips := h.skips (scope.smoothed failed)
  rw [hskipped] at hskips
  have hpasses : (scope.smoothed failed).passes run.dispatched node.id = false :=
    Scope.not_passes_front hskipped
  have hmem : node ∈ scope.workflow.nodes := Workflow.mem_nodes_of_node? hnode
  have hexecution : execution.header.context = Chronicle.lastContext initial (logOf visits) :=
    h.context
  rw [← hexecution] at hanswer
  obtain ⟨run', host', later, checkpoint, hvisits, hunderway, hqueue', hdispatched, hlog, hafter,
      hsame, hcheckpoint, hcontinues⟩ :=
    (h.requeue (node.id :: pending)).visits (scope.smoothed failed) rfl hpasses hnode
      (Scope.smooth_get? hmem) hanswer hpause
  have hstop : checkpoint.stop = next.checkpoint.stop := by
    unfold Checkpoint.stop
    rw [hsame, hid, hcheckpoint, hcontext, hcontinues, hpending, ← hfollowed]
    rfl
  refine ⟨run', host', later, hskips.trans hvisits, hunderway, ?_, ?_, ?_, ?_⟩
  · rw [hlog, List.map_append, h.log, logOf_append]
    simp [hstop]
  · rw [hafter, hcheckpoint, hcontext, logOf_append]
    simp [Chronicle.lastContext]
  · rw [hqueue', logOf_append, Scope.continuation_append, hcontinues, hpending, ← hfollowed]
    rfl
  · intro other
    rw [hdispatched, visitedBy_append]
    simp [h.dispatched, hid, or_comm]

/-- A whole walk of a valid definition is a run. -/
theorem walk (h : run.Replays scope initial [] engine host execution)
    (htrail : Trail scope initial visits) (hvalid : scope.workflow.validate = .ok ())
    (hfunctional : scope.Functional)
    (hfailed : ∀ visit ∈ visits, visit.checkpoint.nodeId ∈ failed ↔ visit.outcome = none) :
    ∃ run' host' later,
      Call.Leads (.driving (scope.smoothed failed) run, engine, host)
        (.driving (scope.smoothed failed) run', engine, host') ∧
      run'.Replays scope initial visits engine host' later := by
  induction htrail with
  | nil => exact ⟨run, host, execution, .refl, h⟩
  | @visit visits next htrail hnext ih =>
      obtain ⟨run', host', later, hleads, hreplays⟩ :=
        ih fun visit hvisit => hfailed visit (List.mem_append_left _ hvisit)
      obtain ⟨last, end', final, hleads', hreplays'⟩ :=
        hreplays.visit hnext (htrail.mem_nodeIds hvalid) hfunctional (hfailed next (by simp))
      exact ⟨last, end', final, hleads.trans hleads', hreplays'⟩

end Replays

end Run

namespace Trail

variable {scope : Scope} {initial : Context} {visits : List Visit}

/-- The error checkpoints of a walk are those of its failures. -/
theorem isError_iff (h : Trail scope initial visits) :
    ∀ visit ∈ visits, visit.checkpoint.isError = true ↔ visit.outcome = none := by
  induction h with
  | nil =>
      intro visit hvisit
      cases hvisit
  | @visit visits next _ hnext ih =>
      intro visit hvisit
      rcases List.mem_append.mp hvisit with hold | hnew
      · exact ih visit hold
      · rw [List.mem_singleton] at hnew
        subst hnew
        generalize visit.outcome = outcome at hnext
        cases hnext with
        | success _ _ _ _ _ _ _ hcheckpoint =>
            simp [Checkpoint.isError, hcheckpoint.2.2.2]
        | failure _ hcheckpoint => simp [hcheckpoint.2.1]

/-- A node failed in a walk if one of its checkpoints says so. -/
theorem mem_failedIds_iff {execution : StoredExecution} (h : Trail scope initial visits)
    (hlog : execution.log = logOf visits) :
    ∀ visit ∈ visits, visit.checkpoint.nodeId ∈ execution.failedIds ↔ visit.outcome = none := by
  intro visit hvisit
  rw [← h.isError_iff visit hvisit]
  unfold StoredExecution.failedIds
  rw [hlog]
  constructor
  · intro hfailed
    obtain ⟨checkpoint, hcheckpoint, hsame⟩ := List.mem_map.mp hfailed
    obtain ⟨hmem, herror⟩ := List.mem_filter.mp hcheckpoint
    obtain ⟨other, hother, rfl⟩ := List.mem_map.mp hmem
    -- No node is visited twice, so the error is that of this visit.
    have heq : other = visit := List.inj_on_of_nodup_map h.nodup hother hvisit hsame
    exact heq ▸ herror
  · intro herror
    have hmem : visit.checkpoint ∈ logOf visits := List.mem_map_of_mem hvisit
    exact List.mem_map_of_mem (List.mem_filter.mpr ⟨hmem, herror⟩)

/-- A walk that is over is what one undisturbed run of its smooth version comes to. -/
theorem replayed (h : Trail scope initial visits) (haccepted : scope.Accepted)
    (hdeadline : 0 < scope.deadlineMs) (hfunctional : scope.Functional) {failed : List NodeId}
    (hfailed : ∀ visit ∈ visits, visit.checkpoint.nodeId ∈ failed ↔ visit.outcome = none)
    (hover : scope.front (visitedBy visits) (scope.continuation (logOf visits)) = [])
    {request : StartRequest} (hworkflow : request.workflow = scope.workflow)
    (hinitial : request.context = initial) {host : Host MemoryStore}
    (hempty : host.store.executions = []) :
    ∃ result engine' host' later,
      Call.Leads (.starting request, scope.smooth failed, host)
        (.ended (.ok result), engine', host') ∧
      result.success = true ∧ result.status = .completed ∧
      result.output = Chronicle.lastContext initial (logOf visits) ∧
      LawfulStore.stored host'.store result.executionId = some later ∧
      later.header.status = .completed ∧
      later.header.context = Chronicle.lastContext initial (logOf visits) ∧
      later.log.map Checkpoint.stop = (logOf visits).map Checkpoint.stop := by
  have haccept : (scope.smooth failed).accept request.workflow = .ok () := by
    rw [hworkflow]
    exact haccepted
  have hearly : 0 < (scope.smooth failed).config.timeoutFor request.workflow := by
    rw [hworkflow]
    exact hdeadline
  obtain ⟨run, engine, begun, execution, hbegins, hunderway, hlog, hcontext, hdispatched, hqueue⟩ :=
    Call.begins rfl hempty haccept hearly
  rw [hworkflow] at hbegins hqueue
  have hstands : run.Replays scope initial [] engine begun execution := by
    refine ⟨hunderway, by simp [hlog, logOf], hcontext.trans hinitial, hqueue, ?_⟩
    simp [hdispatched, visitedBy]
  obtain ⟨last, ended, final, hwalks, hreplays⟩ :=
    hstands.walk h haccepted.valid hfunctional hfailed
  have hnothing : (scope.smoothed failed).front last.dispatched last.queue = [] := by
    rw [← hover, hreplays.queue]
    exact Scope.front_congr hreplays.dispatched
  have hskips := hreplays.skips (scope.smoothed failed)
  rw [hnothing] at hskips
  obtain ⟨result, engine', host', later, hends, hsuccess, hstatus, houtput, hstored, hcompleted,
      hafter, htold⟩ :=
    (hreplays.requeue []).concludes (scope.smoothed failed) rfl
  refine ⟨result, engine', host', later, ?_, hsuccess, hstatus, ?_, hstored, hcompleted, ?_, ?_⟩
  · exact hbegins.trans (hwalks.trans (hskips.trans hends))
  · rw [houtput, hreplays.context]
  · rw [hafter, hreplays.context]
  · rw [htold, hreplays.log]

end Trail

/-- A pause, then a node of a type that nobody registered. -/
def Sample.rough : Workflow where
  id := "rough"
  nodes := [⟨"first", "test.step", none, [], none⟩, ⟨"gate", "test.wait", none, [], none⟩,
    ⟨"lost", "test.nowhere", none, [], none⟩, ⟨"last", "test.step", none, [], none⟩]
  connections := [⟨"first", "gate", defaultPort, defaultPort⟩,
    ⟨"gate", "lost", defaultPort, defaultPort⟩, ⟨"lost", "last", defaultPort, defaultPort⟩]

/-- An execution that was started and then resumed a number of times. -/
def Sample.resumed (workflow : Workflow) : Nat → Session (FaultyStore MemoryStore)
  | 0 => ((session {}).ask (start workflow)).play 60
  | times + 1 => ((resumed workflow times).ask (resume workflow)).play 60

theorem Sample.reachable_resumed (workflow : Workflow) (times : Nat) :
    Session.Reachable LawfulStore.Reliable (resumed workflow times) := by
  induction times with
  | zero => exact ((reachable_session ⟨rfl, rfl, trivial⟩).ask _).play 60
  | succ times ih => exact (ih.ask _).play 60

namespace Session

variable {σ : Type} [ExecutionStore σ] [LawfulStore σ]

/-- When an execution ends completed, after any number of runs of one definition without inputs in a
store that refuses no commit, then one undisturbed run of the smooth version of this definition,
started with the same context, comes to its end, with the same log and the same final context. -/
theorem Reachable.transparent {session : Session σ}
    (h : Reachable LawfulStore.Reliable session) {id : ExecutionId} {execution : StoredExecution}
    (hstored : session.stored id = some execution)
    (hcompleted : execution.header.status = .completed) {request : StartRequest}
    (hcreated : (session.chronicles id).head? = some (.created request)) {scope : Scope}
    (hworkflow : scope.workflow = request.workflow)
    (hsaves : ∀ saved input, Deed.saved saved input ∈ session.chronicles id →
      saved = scope ∧ input = none)
    (hfunctional : scope.Functional) (host : Host MemoryStore)
    (hempty : host.store.executions = []) :
    ∃ steps result engine' host' replay,
      (∀ fuel, (Call.starting request).play (steps + fuel) (scope.smooth execution.failedIds) host =
        (.ended (.ok result), engine', host')) ∧
      result.success = true ∧ result.status = .completed ∧
      result.output = execution.header.context ∧
      LawfulStore.stored host'.store result.executionId = some replay ∧
      replay.header.status = .completed ∧ replay.header.context = execution.header.context ∧
      replay.log.map Checkpoint.stop = execution.log.map Checkpoint.stop := by
  have horderly := h.orderly course_conduct.reliable
  obtain ⟨htells, hcourse, hover⟩ : (session.chronicles id).Recounts execution := by
    obtain ⟨-, hrest, hclear⟩ | ⟨_, -, _, _, -, -, hrest, -, hclear⟩ := horderly.kept hstored
    · exact hrest hclear
    · exact hrest hclear
  obtain ⟨first, rest, visits, hbegun, htrail, hlog, hcontext, -⟩ := hcourse.trail hsaves
  rw [hbegun] at hcreated
  cases hcreated
  rw [← htells.log] at hlog hcontext
  obtain ⟨follows, hscope, hnothing⟩ := hover hcompleted
  obtain ⟨input, hsaved⟩ := Chronicle.mem_of_scope? hscope
  obtain rfl := (hsaves follows input hsaved).1
  obtain ⟨haccepted, hdeadline⟩ := hcourse.runnable hsaved
  have hvisited : execution.nodeIds = visitedBy visits := by
    unfold StoredExecution.nodeIds
    rw [← hlog]
    simp [visitedBy, logOf]
  rw [hvisited, ← hlog] at hnothing
  obtain ⟨result, engine', host', replay, hleads, hsuccess, hstatus, houtput, hreplay, hdone,
      hafter, hstops⟩ :=
    htrail.replayed haccepted hdeadline hfunctional (htrail.mem_failedIds_iff hlog.symm) hnothing
      hworkflow.symm rfl hempty
  obtain ⟨steps, hplays⟩ := hleads.play
  have hfinal : execution.header.context =
      Chronicle.lastContext request.context (logOf visits) := by
    rw [htells.context, hcontext, hlog]
  refine ⟨steps, result, engine', host', replay, ?_, hsuccess, hstatus, houtput.trans hfinal.symm,
    hreplay, hdone, hafter.trans hfinal.symm, ?_⟩
  · intro fuel
    exact (hplays fuel).trans (Call.play_ended ..)
  · rw [hstops, hlog]

/-- A run that pauses, one that fails, and one that comes to the end. -/
theorem Reachable.transparent_of_rough :
    ∃ (scope : Scope) (execution : StoredExecution), scope.workflow = Sample.rough ∧
      (Sample.resumed Sample.rough 2).stored Sample.firstId = some execution ∧
      execution.header.status = .completed ∧
      execution.nodeIds = ["first", "gate", "lost", "last"] ∧ execution.failedIds = ["lost"] ∧
      ∃ steps result engine' host' replay,
        (∀ fuel, (Call.starting ⟨Sample.rough, "user", []⟩).play (steps + fuel)
          (scope.smooth execution.failedIds) ({ store := {}, bus := default } : Host MemoryStore) =
            (.ended (.ok result), engine', host')) ∧
        LawfulStore.stored host'.store result.executionId = some replay ∧
        replay.log.map Checkpoint.stop = execution.log.map Checkpoint.stop := by
  have hrecord : ((Sample.resumed Sample.rough 2).stored Sample.firstId).map (fun execution =>
      (execution.header.status, execution.nodeIds, execution.failedIds)) =
        some (.completed, ["first", "gate", "lost", "last"], ["lost"]) := by
    decide
  obtain ⟨execution, hstored, htold⟩ := Option.map_eq_some_iff.mp hrecord
  simp only [Prod.mk.injEq] at htold
  obtain ⟨hcompleted, hnodes, hlost⟩ := htold
  obtain ⟨scope, first, gate, lost, last, hchronicle, hworkflow, hregistry⟩ :
      ∃ scope first gate lost last, (Sample.resumed Sample.rough 2).chronicles Sample.firstId =
        [.created ⟨Sample.rough, "user", []⟩, .saved scope none, .appended first .running,
          .appended gate .paused, .saved scope none, .appended lost .failed, .saved scope none,
          .appended last .running] ∧
        scope.workflow = Sample.rough ∧ scope.registry = Sample.registry :=
    ⟨_, _, _, _, _, rfl, rfl, rfl⟩
  have hfunctional : scope.Functional := by
    intro node hnode executor hexecutor ctx ctx' hid _ hcontext
    have hvisited : Sample.visited ctx = Sample.visited ctx' := by
      unfold Sample.visited
      rw [hid, hcontext]
    rw [hworkflow] at hnode
    rw [hregistry] at hexecutor
    have hcases : executor.execute = (fun ctx => .answer (Sample.visit ctx)) ∨
        executor.execute = fun ctx => .answer (.ok (.pause (Sample.visited ctx))) := by
      simp only [Sample.rough, List.mem_cons, List.not_mem_nil, or_false] at hnode
      rcases hnode with rfl | rfl | rfl | rfl
      · cases hexecutor
        exact Or.inl rfl
      · cases hexecutor
        exact Or.inr rfl
      · cases hexecutor
      · cases hexecutor
        exact Or.inl rfl
    rcases hcases with hvisit | hpause
    · rw [hvisit]
      simp only [Sample.visit, hvisited]
    · rw [hpause]
      simp only [hvisited]
  have hsaves : ∀ saved input,
      Deed.saved saved input ∈ (Sample.resumed Sample.rough 2).chronicles Sample.firstId →
        saved = scope ∧ input = none := by
    intro saved input hsaved
    rw [hchronicle] at hsaved
    simpa using hsaved
  obtain ⟨steps, result, engine', host', replay, hplays, -, -, -, hreplay, -, -, hstops⟩ :=
    Reachable.transparent (Sample.reachable_resumed Sample.rough 2) hstored hcompleted
      (by rw [hchronicle]; rfl) hworkflow hsaves hfunctional { store := {}, bus := default } rfl
  exact ⟨scope, execution, hworkflow, hstored, hcompleted, hnodes, hlost, steps, result, engine',
    host', replay, hplays, hreplay, hstops⟩

end Session

end WorkflowEngine
