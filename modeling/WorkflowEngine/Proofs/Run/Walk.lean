import Mathlib.Data.List.Nodup
import WorkflowEngine.Proofs.Session.Chronicle

/-!
How a definition is walked, as far as the log shows it. A walk keeps a queue; from it the first node
is taken that was not visited yet and is no trigger, its answer or its failure becomes a checkpoint,
and what follows it joins the queue. Runs and resumed runs are compared with walks, not with each
other.

Waits, deadlines and refused commits are not part of a walk.
-/
namespace WorkflowEngine

namespace Scope

/-- A node of the queue that is looked at without being visited. -/
def passes (scope : Scope) (visited : List NodeId) (id : NodeId) : Bool :=
  decide (id ∈ visited) || scope.workflow.isTriggerId scope.config.isTrigger id

/-- The queue from the next node to visit on. -/
def front (scope : Scope) (visited queue : List NodeId) : List NodeId :=
  queue.dropWhile (scope.passes visited)

/-- The queue a log leaves, or the one a definition begins with. -/
def continuation (scope : Scope) (log : List Checkpoint) : List NodeId :=
  (log.getLast?.map (·.pending)).getD (scope.workflow.entryNodes scope.config.isTrigger)

variable {scope : Scope} {visited queue pending : List NodeId} {id : NodeId}

@[simp] theorem continuation_nil :
    scope.continuation [] = scope.workflow.entryNodes scope.config.isTrigger := rfl

@[simp] theorem continuation_append (log : List Checkpoint) (checkpoint : Checkpoint) :
    scope.continuation (log ++ [checkpoint]) = checkpoint.pending := by
  simp [continuation]

/-- Which nodes were visited is all that counts, not in which order. -/
theorem front_congr {others : List NodeId} (h : ∀ id, id ∈ visited ↔ id ∈ others) :
    scope.front visited queue = scope.front others queue := by
  have hpasses : scope.passes visited = scope.passes others := by
    funext id
    simp [passes, h]
  unfold front
  rw [hpasses]

theorem front_skip (h : scope.passes visited id = true) :
    scope.front visited (id :: queue) = scope.front visited queue :=
  List.dropWhile_cons_of_pos h

theorem front_visit (h : scope.passes visited id = false) :
    scope.front visited (id :: queue) = id :: queue :=
  List.dropWhile_cons_of_neg (by simp [h])

theorem not_passes_front (h : scope.front visited queue = id :: pending) :
    scope.passes visited id = false := by
  have hhead := List.head?_dropWhile_not (scope.passes visited) queue
  have hfront : (queue.dropWhile (scope.passes visited)).head? = some id := by
    change (scope.front visited queue).head? = some id
    rw [h]
    rfl
  rw [hfront] at hhead
  exact hhead

theorem not_visited_front (h : scope.front visited queue = id :: pending) : id ∉ visited := by
  have hpasses := not_passes_front h
  intro hvisited
  simp [passes, hvisited] at hpasses

theorem mem_of_front (h : scope.front visited queue = id :: pending) :
    id ∈ queue ∧ ∀ other ∈ pending, other ∈ queue := by
  have hsuffix : id :: pending <:+ queue := h ▸ List.dropWhile_suffix _
  exact ⟨hsuffix.subset List.mem_cons_self,
    fun other hother => hsuffix.subset (List.mem_cons_of_mem _ hother)⟩

theorem isTriggerId_of_node {node : NodeSpec} (h : scope.workflow.node? id = some node) :
    scope.workflow.isTriggerId scope.config.isTrigger id = scope.isTrigger node := by
  simp [Workflow.isTriggerId, h, isTrigger]

theorem isTriggerId_of_unknown (h : scope.workflow.node? id = none) :
    scope.workflow.isTriggerId scope.config.isTrigger id = false := by
  simp [Workflow.isTriggerId, h]

/-- A node that can be visited is no trigger. -/
theorem isTriggerId_of_front (h : scope.front visited queue = id :: pending) :
    scope.workflow.isTriggerId scope.config.isTrigger id = false := by
  have hpasses := not_passes_front h
  rw [passes, Bool.or_eq_false_iff] at hpasses
  exact hpasses.2

/-- One step of a walk: what the next node of the queue comes to in a context, and its checkpoint. A
failure keeps the context and goes on with everything that follows. -/
inductive Visits (scope : Scope) (context : Context) (visited queue : List NodeId) :
    Checkpoint → Option NodeOutcome → Prop
  | success {node : NodeSpec} {pending : List NodeId} {executor : Executor} {ctx : NodeContext}
      {outcome : NodeOutcome} {checkpoint : Checkpoint}
      (hfront : scope.front visited queue = node.id :: pending)
      (hnode : scope.workflow.node? node.id = some node)
      (hexecutor : scope.registry.get? node.nodeType = some executor)
      (hid : ctx.nodeId = node.id) (hconfig : ctx.config = node.config)
      (hcontext : ctx.context = context)
      (hanswer : (executor.execute ctx).answer? = some (.ok outcome))
      (hcheckpoint : checkpoint.nodeId = node.id ∧ checkpoint.context = outcome.context ∧
        checkpoint.pending = pending ++ Run.followed scope node outcome ∧ checkpoint.error = none) :
      Visits scope context visited queue checkpoint (some outcome)
  | failure {pending : List NodeId} {checkpoint : Checkpoint}
      (hfront : scope.front visited queue = checkpoint.nodeId :: pending)
      (hcheckpoint : checkpoint.context = context ∧ checkpoint.isError = true ∧
        checkpoint.pending = pending ++ scope.workflow.successors checkpoint.nodeId none) :
      Visits scope context visited queue checkpoint none

/-- The status a visit leaves its execution in. -/
def statusAfter : Option NodeOutcome → ExecutionStatus
  | none => .failed
  | some outcome => if outcome.isPause then .paused else .running

/-- What a visit is followed by. -/
def followedBy (scope : Scope) (id : NodeId) (outcome : Option NodeOutcome) : List NodeId :=
  scope.workflow.successors id
    (if scope.workflow.isBranch id then outcome.bind NodeOutcome.selection else none)

/-- Every visit takes the first node of the queue and appends what follows it. -/
theorem Visits.step {context : Context} {checkpoint : Checkpoint} {outcome : Option NodeOutcome}
    (h : scope.Visits context visited queue checkpoint outcome) :
    ∃ pending, scope.front visited queue = checkpoint.nodeId :: pending ∧
      checkpoint.pending = pending ++ scope.followedBy checkpoint.nodeId outcome := by
  cases h with
  | success hfront _ _ _ _ _ _ hcheckpoint =>
      obtain ⟨hid, -, hpending, -⟩ := hcheckpoint
      exact ⟨_, hid ▸ hfront, hpending.trans (by rw [hid]; rfl)⟩
  | failure hfront hcheckpoint =>
      refine ⟨_, hfront, hcheckpoint.2.2.trans ?_⟩
      simp [followedBy]

end Scope

/-- A checkpoint with what its node answered; nothing, if the node failed. -/
structure Visit where
  checkpoint : Checkpoint
  outcome : Option NodeOutcome

/-- The log of a walk. -/
def logOf (visits : List Visit) : List Checkpoint := visits.map (·.checkpoint)

/-- The nodes of a walk. -/
def visitedBy (visits : List Visit) : List NodeId := visits.map (·.checkpoint.nodeId)

@[simp] theorem logOf_append (visits : List Visit) (next : Visit) :
    logOf (visits ++ [next]) = logOf visits ++ [next.checkpoint] := by
  simp [logOf]

@[simp] theorem visitedBy_append (visits : List Visit) (next : Visit) :
    visitedBy (visits ++ [next]) = visitedBy visits ++ [next.checkpoint.nodeId] := by
  simp [visitedBy]

/-- A walk from an initial context, visit by visit. -/
inductive Trail (scope : Scope) (initial : Context) : List Visit → Prop
  | nil : Trail scope initial []
  | visit {visits : List Visit} {next : Visit} (h : Trail scope initial visits)
      (hnext : scope.Visits (Chronicle.lastContext initial (logOf visits)) (visitedBy visits)
        (scope.continuation (logOf visits)) next.checkpoint next.outcome) :
      Trail scope initial (visits ++ [next])

namespace Scope

/-- Everything that ever joins the queue of a walk, in order. -/
def arrivals (scope : Scope) (visits : List Visit) : List NodeId :=
  scope.workflow.entryNodes scope.config.isTrigger ++
    visits.flatMap fun visit => scope.followedBy visit.checkpoint.nodeId visit.outcome

/-- The nodes of a list that a walk may visit. -/
def visitable (scope : Scope) (ids : List NodeId) : List NodeId :=
  ids.filter fun id => !scope.workflow.isTriggerId scope.config.isTrigger id

/-- What a queue has left to visit. -/
def unvisited (scope : Scope) (visited queue : List NodeId) : List NodeId :=
  queue.filter fun id => !scope.passes visited id

variable {scope : Scope} {visited queue pending : List NodeId} {id : NodeId}

theorem mem_unvisited : id ∈ scope.unvisited visited queue ↔
    id ∈ queue ∧ id ∉ visited ∧
      scope.workflow.isTriggerId scope.config.isTrigger id = false := by
  simp [unvisited, passes]

theorem unvisited_nil : scope.unvisited [] queue = scope.visitable queue := by
  simp [unvisited, visitable, passes]

/-- Looking for the next node loses nothing that is left to visit. -/
theorem unvisited_front : scope.unvisited visited (scope.front visited queue) =
    scope.unvisited visited queue := by
  unfold front
  induction queue with
  | nil => rfl
  | cons id queue ih =>
      cases hpasses : scope.passes visited id with
      | true =>
          rw [List.dropWhile_cons_of_pos hpasses, ih]
          simp [unvisited, hpasses]
      | false => rw [List.dropWhile_cons_of_neg (by simp [hpasses])]

/-- One visit takes all copies of its node out of what is left. -/
theorem unvisited_visit (h : scope.front visited queue = id :: pending) :
    (scope.unvisited visited queue).eraseDups =
      id :: (scope.unvisited (visited ++ [id]) pending).eraseDups := by
  have hsplit : scope.unvisited visited queue = id :: scope.unvisited visited pending := by
    rw [← unvisited_front, h]
    simp [unvisited, not_passes_front h]
  have hrest : (scope.unvisited visited pending).filter (fun other => !other == id) =
      scope.unvisited (visited ++ [id]) pending := by
    unfold unvisited
    rw [List.filter_filter]
    congr 1
    funext other
    by_cases hother : other = id <;> simp [passes, hother]
  rw [hsplit, List.eraseDups_cons, hrest]

/-- What joins the queue adds what was not seen before. -/
theorem unvisited_append (others : List NodeId) :
    (scope.unvisited visited (queue ++ others)).eraseDups =
      (scope.unvisited visited queue).eraseDups ++
        ((scope.visitable others).filter fun id =>
          decide (id ∉ visited ∧ id ∉ scope.unvisited visited queue)).eraseDups := by
  have hsplit : scope.unvisited visited (queue ++ others) =
      scope.unvisited visited queue ++ scope.unvisited visited others := by
    simp [unvisited]
  have hrest : (scope.unvisited visited others).removeAll (scope.unvisited visited queue) =
      (scope.visitable others).filter fun id =>
        decide (id ∉ visited ∧ id ∉ scope.unvisited visited queue) := by
    generalize scope.unvisited visited queue = left
    unfold List.removeAll unvisited visitable
    rw [List.filter_filter, List.filter_filter]
    congr 1
    funext id
    by_cases hvisited : id ∈ visited <;>
      by_cases hqueue : id ∈ left <;>
      simp [passes, hvisited, hqueue]
  rw [hsplit, List.eraseDups_append, hrest]

end Scope

namespace Trail

variable {scope : Scope} {initial : Context} {visits : List Visit}

/-- No node is visited twice. -/
theorem nodup (h : Trail scope initial visits) : (visitedBy visits).Nodup := by
  induction h with
  | nil => exact List.nodup_nil
  | visit _ hnext ih =>
      obtain ⟨pending, hfront, -⟩ := hnext.step
      rw [visitedBy_append]
      refine List.nodup_append.mpr ⟨ih, by simp, ?_⟩
      intro id hid other hother
      rw [List.mem_singleton] at hother
      rintro rfl
      exact Scope.not_visited_front hfront (hother ▸ hid)

/-- What arrived is, without repetition, what was visited and then what is left to visit. -/
theorem arrivals_eq (h : Trail scope initial visits) :
    (scope.visitable (scope.arrivals visits)).eraseDups = visitedBy visits ++
      (scope.unvisited (visitedBy visits) (scope.continuation (logOf visits))).eraseDups := by
  induction h with
  | nil =>
      change (scope.visitable (scope.arrivals [])).eraseDups =
        (scope.unvisited [] (scope.continuation [])).eraseDups
      rw [Scope.unvisited_nil]
      simp [Scope.arrivals]
  | @visit visits next h hnext ih =>
      -- A visit moves its node from what is left to what was visited; what follows it is new only
      -- where it never arrived before.
      obtain ⟨pending, hfront, hpending⟩ := hnext.step
      rw [Scope.unvisited_visit hfront] at ih
      have harrivals : scope.visitable (scope.arrivals (visits ++ [next])) =
          scope.visitable (scope.arrivals visits) ++
            scope.visitable (scope.followedBy next.checkpoint.nodeId next.outcome) := by
        simp [Scope.visitable, Scope.arrivals]
      have hmem : ∀ id, id ∈ scope.visitable (scope.arrivals visits) ↔
          id ∈ visitedBy visits ++ [next.checkpoint.nodeId] ∨
            id ∈ scope.unvisited (visitedBy visits ++ [next.checkpoint.nodeId]) pending := by
        intro id
        rw [← List.mem_eraseDups, ih]
        simp [List.mem_eraseDups, or_assoc]
      have hrest : (scope.visitable
            (scope.followedBy next.checkpoint.nodeId next.outcome)).removeAll
              (scope.visitable (scope.arrivals visits)) =
          (scope.visitable (scope.followedBy next.checkpoint.nodeId next.outcome)).filter
            fun id => decide (id ∉ visitedBy visits ++ [next.checkpoint.nodeId] ∧
              id ∉ scope.unvisited (visitedBy visits ++ [next.checkpoint.nodeId]) pending) := by
        unfold List.removeAll
        congr 1
        funext id
        have hid := hmem id
        by_cases hseen : id ∈ scope.visitable (scope.arrivals visits)
        · simp only [List.elem_eq_mem, hseen, decide_true, Bool.not_true]
          symm
          rw [decide_eq_false_iff_not]
          exact fun hnot => (hid.mp hseen).elim hnot.1 hnot.2
        · simp only [List.elem_eq_mem, hseen, decide_false, Bool.not_false]
          symm
          rw [decide_eq_true_iff]
          exact ⟨fun hin => hseen (hid.mpr (Or.inl hin)), fun hin => hseen (hid.mpr (Or.inr hin))⟩
      rw [harrivals, List.eraseDups_append, ih, visitedBy_append, logOf_append,
        Scope.continuation_append, hpending, Scope.unvisited_append, hrest]
      simp

/-- A walk that is over visited everything that arrived, in the order of arrival. -/
theorem first_arrival (h : Trail scope initial visits)
    (hover : scope.front (visitedBy visits) (scope.continuation (logOf visits)) = []) :
    visitedBy visits = (scope.visitable (scope.arrivals visits)).eraseDups := by
  have hnothing : scope.unvisited (visitedBy visits) (scope.continuation (logOf visits)) = [] := by
    rw [← Scope.unvisited_front, hover]
    rfl
  rw [h.arrivals_eq, hnothing]
  simp

end Trail

/-- An edge that is followed once its source has an outcome: any outgoing one, but of a branch node
that selected an output only one that leaves through it. -/
def Workflow.Follows (w : Workflow) (source : NodeId) (outcome : NodeOutcome) (target : NodeId) :
    Prop :=
  ∃ edge ∈ w.connections, edge.fromNodeId = source ∧ edge.toNodeId = target ∧
    (w.isBranch source = true →
      ∀ output context, outcome = .branch output context → edge.fromOutput = output)

/-- The nodes that an expansion by outcomes reaches: the entries and what followed edges lead to,
without triggers. -/
inductive Scope.Reached (scope : Scope) (outcome : NodeId → NodeOutcome) : NodeId → Prop
  | entry {id : NodeId} (hentry : id ∈ scope.workflow.entryNodes scope.config.isTrigger)
      (htrigger : scope.workflow.isTriggerId scope.config.isTrigger id = false) :
      Reached scope outcome id
  | edge {source target : NodeId} (hsource : Reached scope outcome source)
      (hfollows : scope.workflow.Follows source (outcome source) target)
      (htrigger : scope.workflow.isTriggerId scope.config.isTrigger target = false) :
      Reached scope outcome target

theorem Scope.mem_followedBy {scope : Scope} {source target : NodeId} {outcome : NodeOutcome} :
    target ∈ scope.followedBy source (some outcome) ↔
      scope.workflow.Follows source outcome target := by
  unfold followedBy Workflow.successors Workflow.edges Workflow.Follows
  constructor
  · intro h
    obtain ⟨edge, hedge, htarget⟩ := List.mem_map.mp h
    obtain ⟨hedges, houtput⟩ := List.mem_filter.mp hedge
    obtain ⟨hconnection, hsource⟩ := List.mem_filter.mp hedges
    refine ⟨edge, hconnection, eq_of_beq hsource, htarget, ?_⟩
    rintro hbranch output context rfl
    simp only [hbranch, if_true, Option.bind_some, NodeOutcome.selection,
      Option.all_some] at houtput
    exact eq_of_beq houtput
  · rintro ⟨edge, hconnection, hsource, htarget, houtput⟩
    refine List.mem_map.mpr ⟨edge, List.mem_filter.mpr ⟨List.mem_filter.mpr ⟨hconnection, ?_⟩, ?_⟩,
      htarget⟩
    · simp [hsource]
    · cases hbranch : scope.workflow.isBranch source with
      | false => simp
      | true =>
          cases outcome with
          | proceed | pause => simp [NodeOutcome.selection]
          | branch output context =>
              simp [NodeOutcome.selection, houtput hbranch output context rfl]

namespace Trail

variable {scope : Scope} {initial : Context} {visits : List Visit}

/-- What arrived was visited or is left to visit. -/
theorem mem_arrivals (h : Trail scope initial visits) {id : NodeId} :
    id ∈ scope.visitable (scope.arrivals visits) ↔ id ∈ visitedBy visits ∨
      id ∈ scope.unvisited (visitedBy visits) (scope.continuation (logOf visits)) := by
  rw [← List.mem_eraseDups, h.arrivals_eq]
  simp [List.mem_eraseDups]

private theorem reached_of_arrival {outcome : NodeId → NodeOutcome} (h : Trail scope initial visits)
    (houtcome : ∀ visit ∈ visits, visit.outcome = some (outcome visit.checkpoint.nodeId))
    {id : NodeId} (hid : id ∈ scope.visitable (scope.arrivals visits)) :
    scope.Reached outcome id := by
  induction h generalizing id with
  | nil =>
      obtain ⟨hentry, htrigger⟩ := List.mem_filter.mp hid
      exact .entry (by simpa [Scope.arrivals] using hentry) (by simpa using htrigger)
  | @visit visits next h hnext ih =>
      have ih := fun {id} =>
        @ih (fun visit hvisit => houtcome visit (List.mem_append_left _ hvisit)) id
      obtain ⟨harrival, htrigger⟩ := List.mem_filter.mp hid
      have hsplit : id ∈ scope.arrivals visits ∨
          id ∈ scope.followedBy next.checkpoint.nodeId next.outcome := by
        simpa [Scope.arrivals, or_assoc] using harrival
      rcases hsplit with hold | hnew
      · exact ih (List.mem_filter.mpr ⟨hold, htrigger⟩)
      · obtain ⟨pending, hfront, -⟩ := hnext.step
        have hsource : scope.Reached outcome next.checkpoint.nodeId := by
          refine ih (h.mem_arrivals.mpr (Or.inr (Scope.mem_unvisited.mpr ⟨?_, ?_, ?_⟩)))
          · exact (Scope.mem_of_front hfront).1
          · exact Scope.not_visited_front hfront
          · exact Scope.isTriggerId_of_front hfront
        rw [houtcome next (by simp)] at hnew
        exact .edge hsource (Scope.mem_followedBy.mp hnew) (by simpa using htrigger)

/-- A walk without failures that is over visited exactly what is reached. -/
theorem visited_iff {outcome : NodeId → NodeOutcome} (h : Trail scope initial visits)
    (houtcome : ∀ visit ∈ visits, visit.outcome = some (outcome visit.checkpoint.nodeId))
    (hover : scope.front (visitedBy visits) (scope.continuation (logOf visits)) = [])
    (id : NodeId) : id ∈ visitedBy visits ↔ scope.Reached outcome id := by
  have harrived : ∀ id, id ∈ visitedBy visits ↔ id ∈ scope.visitable (scope.arrivals visits) := by
    intro id
    rw [h.first_arrival hover, List.mem_eraseDups]
  constructor
  · exact fun hid => h.reached_of_arrival houtcome ((harrived id).mp hid)
  · intro hid
    induction hid with
    | entry hentry htrigger =>
        refine (harrived _).mpr (List.mem_filter.mpr ⟨List.mem_append_left _ hentry, ?_⟩)
        simpa using htrigger
    | @edge source target _ hfollows htrigger ih =>
        obtain ⟨visit, hvisit, rfl⟩ := List.mem_map.mp ih
        refine (harrived _).mpr (List.mem_filter.mpr ⟨List.mem_append_right _ ?_, ?_⟩)
        · refine List.mem_flatMap.mpr ⟨visit, hvisit, ?_⟩
          rw [houtcome visit hvisit]
          exact Scope.mem_followedBy.mpr hfollows
        · simpa using htrigger

/-- What a node came to in a walk. -/
theorem exists_outcome (h : Trail scope initial visits)
    (hanswered : ∀ visit ∈ visits, ∃ outcome, visit.outcome = some outcome) :
    ∃ outcome : NodeId → NodeOutcome,
      ∀ visit ∈ visits, visit.outcome = some (outcome visit.checkpoint.nodeId) := by
  refine ⟨fun id => ((visits.find? (·.checkpoint.nodeId == id)).bind (·.outcome)).getD default, ?_⟩
  intro visit hvisit
  obtain ⟨answer, hanswer⟩ := hanswered visit hvisit
  cases hfind : visits.find? (·.checkpoint.nodeId == visit.checkpoint.nodeId) with
  | none =>
      have hmiss := List.find?_eq_none.mp hfind visit hvisit
      simp at hmiss
  | some found =>
      have hsame : found.checkpoint.nodeId = visit.checkpoint.nodeId :=
        (by simpa using List.find?_some hfind)
      have hfound : found = visit :=
        List.inj_on_of_nodup_map h.nodup (List.mem_of_find?_eq_some hfind) hvisit hsame
      simp [hfind, hfound, hanswer]

/-- Every entry of a walk is a visit after those before it. -/
theorem visits_at (h : Trail scope initial visits) (index : Nat) (hindex : index < visits.length) :
    scope.Visits (Chronicle.lastContext initial (logOf (visits.take index)))
      (visitedBy (visits.take index)) (scope.continuation (logOf (visits.take index)))
      visits[index].checkpoint visits[index].outcome := by
  induction h with
  | nil => exact absurd hindex (Nat.not_lt_zero index)
  | @visit visits next h hnext ih =>
      rw [List.length_append, List.length_singleton] at hindex
      by_cases hlast : index = visits.length
      · subst hlast
        rw [List.getElem_concat_length rfl, List.take_left' rfl]
        exact hnext
      · have hinside : index < visits.length := by omega
        rw [List.getElem_append_left hinside, List.take_append_of_le_length (by omega)]
        exact ih hinside

end Trail

end WorkflowEngine
