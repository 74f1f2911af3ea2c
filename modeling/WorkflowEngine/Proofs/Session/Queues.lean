import WorkflowEngine.Proofs.Session.Restart

/-!
# Queues hold known nodes

Whatever a run has in its queue comes from where its definition begins, from an edge of it, or from the
checkpoint it resumes at. So while all saves of an execution follow valid definitions with the same
nodes, nothing but these nodes is ever queued, and the scheduler finds every node that it looks up.

This holds in every lawful store, whatever it refuses, and across any number of stops.
-/
namespace WorkflowEngine

/-- All saves of an execution follow definitions of some kind. -/
def Chronicle.Follows (Kind : Workflow → Prop) (chronicle : Chronicle) : Prop :=
  ∀ scope input, Deed.saved scope input ∈ chronicle → Kind scope.workflow

theorem Chronicle.Follows.before {Kind : Workflow → Prop} {chronicle deeds : Chronicle}
    (h : Follows Kind (chronicle ++ deeds)) : Follows Kind chronicle :=
  fun scope input hsaved => h scope input (List.mem_append_left _ hsaved)

/-- Definitions of some kind are valid, and have all the same nodes. -/
def Workflow.Share (Kind : Workflow → Prop) (ids : List NodeId) : Prop :=
  ∀ workflow, Kind workflow → workflow.validate = .ok () ∧ workflow.nodeIds = ids

/-- While an execution follows definitions of some kind, its checkpoints queue nodes of a list only. -/
def Chronicle.Queues (Kind : Workflow → Prop) (ids : List NodeId) (chronicle : Chronicle)
    (execution : StoredExecution) : Prop :=
  chronicle.Follows Kind → ∀ checkpoint ∈ execution.log, ∀ id ∈ checkpoint.pending, id ∈ ids

namespace Run

/-- A run that has entered was saved, and while its execution and itself follow definitions of some
kind, what it has queued is in a list. -/
structure Stays (Kind : Workflow → Prop) (ids : List NodeId) (scope : Scope) (run : Run)
    (chronicle : Chronicle) : Prop where
  saved : run.stage ≠ .entering → ∃ input, Deed.saved scope input ∈ chronicle
  queued : Kind scope.workflow → chronicle.Follows Kind → ∀ id ∈ run.queue, id ∈ ids
  pending : chronicle.Follows Kind → ∀ call, run.stage = .executing call →
    ∀ id ∈ call.pending, id ∈ ids

variable {Kind : Workflow → Prop} {ids : List NodeId} {request : Request} {scope : Scope} {run : Run}
  {chronicle : Chronicle} {execution : StoredExecution} {demand : Demand} {commit : Commit}

namespace Stays

theorem follows (h : run.Stays Kind ids scope chronicle) (hfollows : chronicle.Follows Kind)
    (hentered : run.stage ≠ .entering) : Kind scope.workflow := by
  obtain ⟨input, hsaved⟩ := h.saved hentered
  exact hfollows scope input hsaved

theorem successors (h : run.Stays Kind ids scope chronicle) (hshare : Workflow.Share Kind ids)
    (hfollows : chronicle.Follows Kind) (hentered : run.stage ≠ .entering) {nodeId : NodeId}
    {output : Option String} : ∀ id ∈ scope.workflow.successors nodeId output, id ∈ ids := by
  intro id hid
  obtain ⟨hvalid, hids⟩ := hshare _ (h.follows hfollows hentered)
  rw [← hids]
  exact Workflow.mem_nodeIds_of_successor hvalid hid

theorem fails (h : run.Stays Kind ids scope chronicle) (hshare : Workflow.Share Kind ids)
    (hfollows : chronicle.Follows Kind) {nodeId : NodeId} {name : String}
    {queue continuation : List NodeId} (hfails : run.Fails scope nodeId name queue continuation) :
    run.stage ≠ .entering ∧ ∀ id ∈ continuation, id ∈ ids := by
  have hentered : run.stage ≠ .entering := by cases hfails <;> simp_all
  have hqueued := h.queued (h.follows hfollows hentered) hfollows
  refine ⟨hentered, ?_⟩
  intro id hid
  cases hfails with
  | unknown _ hqueue =>
      rw [hqueue] at hqueued
      exact hqueued id (List.mem_cons_of_mem _ hid)
  | missing _ hqueue =>
      rw [hqueue] at hqueued
      rcases List.mem_append.mp hid with hold | hnew
      · exact hqueued id (List.mem_cons_of_mem _ hold)
      · exact h.successors hshare hfollows hentered id hnew
  | failed hstage =>
      rcases List.mem_append.mp hid with hold | hnew
      · exact h.pending hfollows _ hstage id hold
      · exact h.successors hshare hfollows hentered id hnew

/-- What a run queues behind a node that answered. -/
theorem answers (h : run.Stays Kind ids scope chronicle) (hshare : Workflow.Share Kind ids)
    (hfollows : chronicle.Follows Kind) {call : NodeCall} (hstage : run.stage = .executing call)
    (outcome : NodeOutcome) : ∀ id ∈ call.pending ++ followed scope call.node outcome, id ∈ ids := by
  intro id hid
  rcases List.mem_append.mp hid with hold | hnew
  · exact h.pending hfollows call hstage id hold
  · exact h.successors hshare hfollows (by simp [hstage]) id hnew

/-- What a run makes durable queues nothing new. -/
theorem queues (h : run.Stays Kind ids scope chronicle) (hshare : Workflow.Share Kind ids)
    (hrest : chronicle.Queues Kind ids execution)
    (hmakes : run.Makes request scope execution demand commit) {deeds : Chronicle} :
    Chronicle.Queues Kind ids (chronicle ++ deeds) (execution.extend commit) := by
  intro hlater checkpoint hcheckpoint id hid
  have hfollows := hlater.before
  rcases List.mem_append.mp hcheckpoint with hold | hnew
  · exact hrest hfollows checkpoint hold id hid
  · cases hmakes with
    | opening _ happended | closing _ _ happended =>
        rw [happended] at hnew
        cases hnew
    | failing hfails happended _ _ _ _ hpending =>
        rw [happended] at hnew
        obtain rfl := List.mem_singleton.mp hnew
        exact (h.fails hshare hfollows hfails).2 id (hpending ▸ hid)
    | @answering _ outcome _ _ _ _ hstage _ _ happended _ _ _ _ hpending =>
        rw [happended] at hnew
        obtain rfl := List.mem_singleton.mp hnew
        exact h.answers hshare hfollows hstage outcome id (hpending ▸ hid)

/-- A run that goes on after a commit has queued nothing new. -/
theorem resumed (h : run.Stays Kind ids scope chronicle) (hshare : Workflow.Share Kind ids)
    (hmakes : run.Makes request scope execution demand commit)
    (hnext : demand.purpose.next = .dispatching) :
    (run.resumed demand (execution.extend commit)).Stays Kind ids scope
      (chronicle ++ commit.deeds scope request.input? (.ok ())) := by
  cases hmakes with
  | opening _ happended hstatus =>
      rw [Commit.deeds_opening hstatus happended]
      refine ⟨fun _ => ⟨request.input?, by simp⟩, ?_, by rintro - _ ⟨⟩⟩
      intro hkind hlater id hid
      refine h.queued hkind hlater.before id ?_
      exact List.append_nil run.queue ▸ hid
  | @answering call outcome _ _ _ _ hstage _ hpurpose =>
      obtain ⟨-, rfl⟩ | ⟨-, duration, rfl⟩ := hpurpose
      · cases hnext
      have hentered : run.stage ≠ .entering := by simp [hstage]
      obtain ⟨input, hsaved⟩ := h.saved hentered
      refine ⟨fun _ => ⟨input, List.mem_append_left _ hsaved⟩, ?_, by rintro - _ ⟨⟩⟩
      intro hkind hlater id hid
      rcases List.mem_append.mp hid with hold | hnew
      · exact h.queued hkind hlater.before id hold
      · exact h.successors hshare hlater.before hentered id hnew
  | closing | failing => cases hnext

end Stays

end Run

variable {Kind : Workflow → Prop} {ids : List NodeId}

theorem queues_conduct (hshare : Workflow.Share Kind ids) :
    Conduct (Chronicle.Queues Kind ids)
      (fun _ scope run chronicle _ => run.Stays Kind ids scope chronicle) fun _ _ _ _ _ => True where
  create := by
    rintro request header - - checkpoint ⟨⟩
  start := by
    rintro engine request header cancelled σ host - -
    refine ⟨fun hentered => absurd rfl hentered, ?_, by rintro - _ ⟨⟩⟩
    rintro hkind - id hid
    obtain ⟨hvalid, hids⟩ := hshare _ hkind
    rw [← hids]
    exact Workflow.mem_nodeIds_of_entry hvalid hid
  resume := by
    rintro engine request workflow cancelled σ host chronicle execution hrest - hresume -
    refine ⟨fun hentered => absurd rfl hentered, ?_, by rintro - _ ⟨⟩⟩
    intro hkind hfollows id hid
    obtain ⟨hvalid, hids⟩ := hshare _ hkind
    change id ∈ Run.initialQueue _ (execution.stateWith request.input) at hid
    rw [Run.Walks.initialQueue_resumed hresume] at hid
    unfold Scope.continuation at hid
    cases hlast : execution.log.getLast? with
    | none =>
        rw [hlast] at hid
        rw [← hids]
        exact Workflow.mem_nodeIds_of_entry hvalid hid
    | some last =>
        rw [hlast] at hid
        exact hrest hfollows last (List.mem_of_getLast? hlast) id hid
  attend _ h := ⟨h.saved, h.queued, h.pending⟩
  skip := by
    intro request scope run chronicle execution nodeId pending h hstage hqueue _
    refine ⟨h.saved, ?_, h.pending⟩
    intro hkind hfollows id hid
    exact h.queued hkind hfollows id (hqueue ▸ List.mem_cons_of_mem _ hid)
  call := by
    intro request scope run chronicle execution node pending executor call _ h _ hstage hqueue _ _ _
      _ _ hpending _
    have htail : Kind scope.workflow → chronicle.Follows Kind → ∀ id ∈ pending, id ∈ ids :=
      fun hkind hfollows id hid =>
        h.queued hkind hfollows id (hqueue ▸ List.mem_cons_of_mem _ hid)
    have hentered : run.stage ≠ .entering := by simp [hstage]
    refine ⟨fun _ => h.saved hentered, htail, ?_⟩
    rintro hfollows other ⟨⟩
    rw [hpending]
    exact htail (h.follows hfollows hentered) hfollows
  unfold := by
    intro request scope run chronicle execution call call' attentive h hstage _ hpending _
    refine ⟨fun _ => h.saved (by simp [hstage]), h.queued, ?_⟩
    rintro hfollows other ⟨⟩
    rw [hpending]
    exact h.pending hfollows call hstage
  commit := by
    rintro request scope run chronicle execution demand time h hrest - hready - hdemand commit hcommit
      later rfl
    have hmakes := hdemand.makes hready time hcommit
    exact ⟨h.queues hshare hrest hmakes, h.resumed hshare hmakes, fun _ _ => trivial⟩
  fail h _ _ _ _ _ := h
  refuse h hfollows := h hfollows.before

namespace Session

variable {σ : Type} [ExecutionStore σ] [LawfulStore σ] {session : Session σ}

/-- At any time, also after any number of stops: while an execution follows valid definitions with the
same nodes, the scheduler has these nodes in its queue and nothing else. -/
theorem Survives.queued (hshare : Workflow.Share Kind ids) (h : Survives (fun _ => True) session)
    {task : Task} (htask : task ∈ session.tasks) {scope : Scope} {run : Run}
    (hcall : task.call = .driving scope run) (hstage : run.stage = .dispatching)
    (hfollows : (session.chronicles run.id).Follows Kind) : ∀ id ∈ run.queue, id ∈ ids := by
  have horderly := Survives.orderly
    ((queues_conduct hshare).custody (fun _ => trivial) fun _ => trivial)
    (fun hinHand => ⟨hinHand.1, hinHand.2.1⟩) h
  obtain ⟨execution, -, -, -, hkeeps⟩ := horderly.driven htask hcall
  simp only [Run.Keeps, hstage] at hkeeps
  have hstays := hkeeps.2
  exact hstays.queued (hstays.follows hfollows (by simp [hstage])) hfollows

end Session

end WorkflowEngine
