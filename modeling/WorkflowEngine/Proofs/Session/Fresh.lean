import WorkflowEngine.Proofs.Session.Course

/-!
What a run means that was started and came to its end: it visited every node that its entries reach
through followed edges, in the order of arrival, and handed the context from node to node. The nodes
that are reached are defined without a queue.

Nothing is said here of runs that paused or failed, nor of what nodes announce while they work.
-/
namespace WorkflowEngine

namespace Run

/-- The walk of a run that was started and came to its end. -/
theorem Ends.trail {start : StartRequest} {scope : Scope} {chronicle : Chronicle}
    {execution : StoredExecution}
    (h : Ends (.start start) scope .completed chronicle execution) :
    ∃ visits, Trail scope start.context visits ∧ execution.log = logOf visits ∧
      execution.nodeIds = visitedBy visits ∧
      scope.front (visitedBy visits) (scope.continuation (logOf visits)) = [] ∧
      ∀ visit ∈ visits, ∃ outcome, visit.outcome = some outcome := by
  obtain ⟨-, hcompleted, ⟨log, hchronicle⟩, hrecounts⟩ := h start rfl rfl
  have hsaves : ∀ saved input, Deed.saved saved input ∈ chronicle →
      saved = scope ∧ input = none := by
    intro saved input hsaved
    rw [hchronicle] at hsaved
    simpa using hsaved
  obtain ⟨request, rest, visits, hbegun, htrail, hlog, -, hdeeds⟩ :=
    hrecounts.course.trail hsaves
  rw [hchronicle] at hbegun
  cases hbegun
  have hexecution : execution.log = logOf visits := hrecounts.tells.log.trans hlog.symm
  have hvisited : execution.nodeIds = visitedBy visits := by
    unfold StoredExecution.nodeIds
    rw [hexecution]
    simp [visitedBy, logOf]
  refine ⟨visits, htrail, hexecution, hvisited, ?_, ?_⟩
  · obtain ⟨follows, hscope, hover⟩ := hrecounts.exhausted hcompleted
    obtain ⟨input, hsaved⟩ := Chronicle.mem_of_scope? hscope
    obtain rfl := (hsaves follows input hsaved).1
    rw [← hvisited, ← hexecution]
    exact hover
  · intro visit hvisit
    have hdeed := hdeeds visit hvisit
    rw [hchronicle] at hdeed
    cases houtcome : visit.outcome with
    | some outcome => exact ⟨outcome, rfl⟩
    | none => simp [houtcome, Scope.statusAfter] at hdeed

end Run

/-- The node of a checkpoint was called with the context before it, and the checkpoint has the
context that the node answered with. -/
def Scope.Answered (scope : Scope) (outcome : NodeId → NodeOutcome) (context : Context)
    (checkpoint : Checkpoint) : Prop :=
  ∃ node executor ctx, scope.workflow.node? checkpoint.nodeId = some node ∧
    scope.registry.get? node.nodeType = some executor ∧
    ctx.nodeId = checkpoint.nodeId ∧ ctx.config = node.config ∧ ctx.context = context ∧
    (executor.execute ctx).answer? = some (.ok (outcome checkpoint.nodeId)) ∧
    checkpoint.context = (outcome checkpoint.nodeId).context

private theorem Trail.answered {scope : Scope} {initial : Context} {visits : List Visit}
    (h : Trail scope initial visits) {outcome : NodeId → NodeOutcome}
    (houtcome : ∀ visit ∈ visits, visit.outcome = some (outcome visit.checkpoint.nodeId))
    (index : Nat) (hindex : index < (logOf visits).length) :
    scope.Answered outcome (Chronicle.lastContext initial ((logOf visits).take index))
      (logOf visits)[index] := by
  have hinside : index < visits.length := by simpa [logOf] using hindex
  have hvisits := h.visits_at index hinside
  rw [houtcome _ (List.getElem_mem hinside)] at hvisits
  have hentry : (logOf visits)[index] = visits[index].checkpoint := by simp [logOf]
  have hbefore : (logOf visits).take index = logOf (visits.take index) := by
    simp [logOf, List.map_take]
  rw [hentry, hbefore]
  generalize houtcome' : some (outcome visits[index].checkpoint.nodeId) = answer at hvisits
  cases hvisits with
  | failure => cases houtcome'
  | success hfront hnode hexecutor hid hconfig hcontext hanswer hcheckpoint =>
      cases houtcome'
      obtain ⟨hsame, hafter, -, -⟩ := hcheckpoint
      rw [hsame] at hanswer hafter
      exact ⟨_, _, _, hsame ▸ hnode, hexecutor, hid.trans hsame.symm, hconfig, hcontext,
        by rw [hsame]; exact hanswer, by rw [hsame]; exact hafter⟩

/-- A choice whose ways meet again, behind a trigger. -/
def Sample.forked : Workflow where
  id := "forked"
  nodes := [⟨"begin", "trigger.manual", none, [], none⟩,
    ⟨"pick", "test.choose", none, [("pick", .string "left")], none⟩,
    ⟨"left", "test.step", none, [], none⟩, ⟨"right", "test.step", none, [], none⟩,
    ⟨"join", "test.step", none, [], none⟩]
  connections := [⟨"begin", "pick", defaultPort, defaultPort⟩,
    ⟨"pick", "left", "left", defaultPort⟩, ⟨"pick", "right", "right", defaultPort⟩,
    ⟨"left", "join", defaultPort, defaultPort⟩, ⟨"right", "join", defaultPort, defaultPort⟩]

namespace Session

variable {σ : Type} [ExecutionStore σ] [LawfulStore σ]

/-- When a run that was started reports completion, its checkpoints are those of the nodes that are
reached by what the nodes answered: each once, in the order in which they first joined the queue,
and each with the context that its node made of the one before. What is reached through outputs only
that were not selected has none. -/
theorem Reachable.fresh_run {session : Session σ} (h : Reachable (fun _ => True) session)
    {task : Task} (htask : task ∈ session.tasks) {start : StartRequest}
    (hrequest : task.request = .start start) {scope : Scope} {run : Run}
    (hcall : task.call = .driving scope run) (hdone : run.result? = some (.ok .completed)) :
    ∃ execution, session.stored run.id = some execution ∧
      execution.header.status = .completed ∧ scope.workflow = start.workflow ∧
      ∃ outcome : NodeId → NodeOutcome,
        execution.nodeIds.Nodup ∧
        (∀ id, id ∈ execution.nodeIds ↔ scope.Reached outcome id) ∧
        execution.nodeIds =
          (scope.visitable (scope.workflow.entryNodes scope.config.isTrigger ++
            execution.nodeIds.flatMap fun id =>
              scope.followedBy id (some (outcome id)))).eraseDups ∧
        (∀ index (hindex : index < execution.log.length),
          scope.Answered outcome
            (Chronicle.lastContext start.context (execution.log.take index))
            execution.log[index]) ∧
        ∀ id, id ∉ scope.workflow.entryNodes scope.config.isTrigger →
          (∀ source ∈ execution.nodeIds, ¬scope.workflow.Follows source (outcome source) id) →
          id ∉ execution.nodeIds := by
  have horderly := h.orderly (course_conduct.custody (fun _ => trivial) fun _ => trivial)
  obtain ⟨execution, hstored, -, -, hkeeps⟩ := horderly.driven htask hcall
  have hstage : run.stage = .finished (.ok .completed) := by
    cases hstage : run.stage <;> simp_all [Run.result?]
  simp only [Run.Keeps, hstage] at hkeeps
  have hends := hkeeps.2 _ rfl
  rw [hrequest] at hends
  obtain ⟨hworkflow, hcompleted, -, -⟩ := hends start rfl rfl
  obtain ⟨visits, htrail, hlog, hvisited, hover, hanswered⟩ := hends.trail
  obtain ⟨outcome, houtcome⟩ := htrail.exists_outcome hanswered
  have hreached : ∀ id, id ∈ execution.nodeIds ↔ scope.Reached outcome id := by
    rw [hvisited]
    exact htrail.visited_iff houtcome hover
  refine ⟨execution, hstored, hcompleted, hworkflow, outcome, hvisited ▸ htrail.nodup, hreached,
    ?_, ?_, ?_⟩
  · have harrivals : scope.arrivals visits = scope.workflow.entryNodes scope.config.isTrigger ++
        (visitedBy visits).flatMap fun id => scope.followedBy id (some (outcome id)) := by
      unfold Scope.arrivals visitedBy
      rw [List.flatMap_map]
      congr 1
      exact List.flatMap_congr fun visit hvisit => by rw [houtcome visit hvisit]
    rw [hvisited, ← harrivals]
    exact htrail.first_arrival hover
  · rw [hlog]
    exact htrail.answered houtcome
  · intro id hentry hunselected hid
    cases (hreached id).mp hid with
    | entry hentered => exact hentry hentered
    | edge hsource hfollows => exact hunselected _ ((hreached _).mpr hsource) hfollows

/-- Of the two ways only the one selected is taken. -/
theorem Reachable.fresh_run_of_fork :
    let finished := ((Sample.session {}).ask (Sample.start Sample.forked)).play 20
    ∃ task scope run, finished.tasks = [task] ∧ task.request = Sample.start Sample.forked ∧
      task.call = .driving scope run ∧ run.result? = some (.ok .completed) ∧
      scope.workflow = Sample.forked ∧
      ∃ execution, finished.stored run.id = some execution ∧
        execution.nodeIds = ["pick", "left", "join"] ∧
        ∃ outcome : NodeId → NodeOutcome,
          ∀ id, id ∈ execution.nodeIds ↔ scope.Reached outcome id := by
  intro finished
  obtain ⟨task, scope, run, htasks, hrequest, hcall, hdone, hlog⟩ :
      ∃ task scope run, finished.tasks = [task] ∧ task.request = Sample.start Sample.forked ∧
        task.call = .driving scope run ∧ run.result? = some (.ok .completed) ∧
        (finished.stored run.id).map (·.nodeIds) = some ["pick", "left", "join"] :=
    ⟨_, _, _, rfl, rfl, rfl, rfl, rfl⟩
  have hfresh : Reachable (fun _ => True) (Sample.session {}) := Sample.reachable_session trivial
  have hfinished : Reachable (fun _ => True) finished :=
    (hfresh.ask (Sample.start Sample.forked)).play 20
  obtain ⟨execution, hstored, -, hworkflow, outcome, -, hreached, -⟩ :=
    Reachable.fresh_run hfinished (htasks ▸ List.mem_cons_self) hrequest hcall hdone
  refine ⟨task, scope, run, htasks, hrequest, hcall, hdone, hworkflow, execution, hstored, ?_,
    outcome, hreached⟩
  rw [hstored] at hlog
  exact Option.some.inj hlog

end Session

end WorkflowEngine
