import WorkflowEngine.Proofs.Session.Conduct

/-!
No node is called twice in the life of an execution. The nodes that a run does not call again cover
the log at any time, and a node that is called, or that fails before it can be, is none of them.

This holds in every lawful store, whatever it refuses, and for definitions that change from call to
call. A call that was cut short may leave no checkpoint, and its node may then be called again.
-/
namespace WorkflowEngine

namespace Run

/-- A run calls no node that has a checkpoint. -/
structure Guarded (run : Run) (execution : StoredExecution) : Prop where
  covered : ∀ id ∈ execution.nodeIds, id ∈ run.dispatched
  called : ∀ call, run.stage = .executing call → call.node.id ∉ run.dispatched

/-- A node that fails was not called before. -/
theorem Guarded.fails {scope : Scope} {run : Run} {execution : StoredExecution} {nodeId : NodeId}
    {name : String} {queue continuation : List NodeId} (h : run.Guarded execution)
    (hfails : run.Fails scope nodeId name queue continuation) : nodeId ∉ run.dispatched := by
  cases hfails with
  | unknown _ _ hnew => exact hnew
  | missing _ _ hnew => exact hnew
  | failed hstage => exact h.called _ hstage

/-- The checkpoint a run asks for is the first of its node. -/
theorem Guarded.fresh {scope : Scope} {run : Run} {execution : StoredExecution} {demand : Demand}
    (h : run.Guarded execution) (hdemand : run.Demands scope demand) {checkpoint : Checkpoint}
    (hcheckpoint : demand.checkpoint = some checkpoint) :
    checkpoint.nodeId ∉ execution.nodeIds := by
  intro hseen
  have hdispatched := h.covered _ hseen
  cases hdemand with
  | entry | conclusion | abandonment => cases hcheckpoint
  | failure _ _ hfails =>
      cases hcheckpoint
      exact h.fails hfails hdispatched
  | completion _ _ _ hstage =>
      cases hcheckpoint
      exact h.called _ hstage hdispatched
  | pause _ _ hstage =>
      cases hcheckpoint
      exact h.called _ hstage hdispatched

/-- A run that goes on after a commit does not call the node it was for again. -/
theorem Guarded.resumed {scope : Scope} {run : Run} {execution : StoredExecution} {demand : Demand}
    (h : run.Guarded execution) (hdemand : run.Demands scope demand)
    (hnext : demand.purpose.next = .dispatching) (time : Timestamp) :
    (run.resumed demand (execution.extend (demand.state.commit demand.checkpoint time))).Guarded
      (execution.extend (demand.state.commit demand.checkpoint time)) := by
  refine ⟨?_, fun call hstage => by cases hstage⟩
  intro id hid
  rw [StoredExecution.nodeIds_extend, List.mem_append] at hid
  change id ∈ demand.dispatched
  cases hdemand with
  | entry =>
      rcases hid with hid | hid
      · exact h.covered id hid
      · cases hid
  | completion =>
      rcases hid with hid | hid
      · exact List.mem_cons_of_mem _ (h.covered id hid)
      · simp only [ExecutionState.commit, Option.toList_some, List.map_cons, List.map_nil,
          List.mem_singleton] at hid
        rw [hid]
        exact List.mem_cons_self
  | conclusion | failure | pause | abandonment => cases hnext

end Run

private theorem StoredExecution.nodup_extend {execution : StoredExecution} {state : ExecutionState}
    {checkpoint : Option Checkpoint} (time : Timestamp) (h : execution.nodeIds.Nodup)
    (hfresh : ∀ entry, checkpoint = some entry → entry.nodeId ∉ execution.nodeIds) :
    (execution.extend (state.commit checkpoint time)).nodeIds.Nodup := by
  rw [nodeIds_extend]
  cases checkpoint with
  | none => simpa [ExecutionState.commit] using h
  | some entry =>
      refine List.nodup_append.mpr ⟨h, by simp [ExecutionState.commit], ?_⟩
      intro id hid other hother
      simp only [ExecutionState.commit, Option.toList_some, List.map_cons, List.map_nil,
        List.mem_singleton] at hother
      rintro rfl
      exact hfresh entry rfl (hother ▸ hid)

theorem once_conduct :
    Conduct (fun _ execution => execution.nodeIds.Nodup)
      (fun _ _ run _ execution => run.Guarded execution) fun _ _ _ _ _ => True where
  create _ := List.nodup_nil
  start := by
    rintro engine request header cancelled σ host - -
    refine ⟨?_, fun call hstage => by cases hstage⟩
    intro id hid
    cases hid
  resume := by
    rintro engine request workflow cancelled σ host chronicle execution - - - -
    refine ⟨?_, fun call hstage => by cases hstage⟩
    intro id hid
    change id ∈ (execution.stateWith request.input).checkpointedNodes
    rw [StoredExecution.stateWith_checkpointedNodes]
    exact hid
  attend _ h := ⟨h.covered, h.called⟩
  skip := by
    intro request scope run chronicle execution nodeId pending h hstage _ _
    refine ⟨h.covered, ?_⟩
    intro call hcall
    exact absurd (hstage.symm.trans hcall) (by simp)
  call := by
    intro request scope run chronicle execution node pending executor call _ h _ _ _ hnew _ _ _
      hnode _ _
    refine ⟨h.covered, ?_⟩
    intro other hother
    cases hother
    rw [hnode]
    exact hnew
  unfold := by
    intro request scope run chronicle execution call call' attentive h hstage hnode _ _
    refine ⟨h.covered, ?_⟩
    intro other hother
    cases hother
    rw [hnode]
    exact h.called call hstage
  commit := by
    rintro request scope run chronicle execution demand time h hrest - - - hdemand commit rfl later
      rfl
    refine ⟨?_, fun hnext => h.resumed hdemand hnext time, fun _ _ => trivial⟩
    exact StoredExecution.nodup_extend time hrest fun entry hentry => h.fresh hdemand hentry
  fail h _ _ _ _ _ := h
  refuse h := h

namespace Session

variable {σ : Type} [ExecutionStore σ] [LawfulStore σ]

/-- At any time, of any execution: no two checkpoints are of one node, failed nodes included, and a
node that is being called has no checkpoint. -/
theorem Reachable.once {session : Session σ} (h : Reachable (fun _ => True) session) :
    (∀ id execution, session.stored id = some execution →
      (execution.log.map (·.nodeId)).Nodup) ∧
    ∀ task ∈ session.tasks, ∀ scope run call,
      task.call = .driving scope run → run.stage = .executing call →
      ∃ execution, session.stored run.id = some execution ∧
        ∀ checkpoint ∈ execution.log, checkpoint.nodeId ≠ call.node.id := by
  have horderly := h.orderly (once_conduct.custody (fun _ => trivial) fun _ => trivial)
  constructor
  · intro id execution hstored
    obtain ⟨-, hrest⟩ | ⟨task, -, scope, run, -, -, hrest, -⟩ := horderly.kept hstored
    · exact hrest
    · exact hrest
  · intro task htask scope run call hcall hstage
    obtain ⟨execution, hstored, -, -, hkeeps⟩ := horderly.driven htask hcall
    simp only [Run.Keeps, hstage] at hkeeps
    refine ⟨execution, hstored, ?_⟩
    intro checkpoint hcheckpoint hsame
    refine hkeeps.2.called call hstage ?_
    rw [← hsame]
    exact hkeeps.2.covered _ (List.mem_map_of_mem hcheckpoint)

/-- The run after the pause lost its first commit and is resumed; it calls the last node again. -/
theorem Reachable.once_of_retry :
    let paused := ((Sample.session { failCommits := [5] }).ask (Sample.start Sample.gated)).play 60
    let refused := (paused.ask (Sample.resume Sample.gated)).play 60
    let retried := (refused.ask (Sample.resume Sample.gated)).play 7
    (∃ scope run call, (retried.tasks.map (·.call)).head? = some (.driving scope run) ∧
      run.stage = .executing call ∧ call.node.id = "last") ∧
    (∃ execution, retried.stored Sample.firstId = some execution ∧
      execution.log.map (·.nodeId) = ["first", "gate"]) ∧
    ∀ id execution, retried.stored id = some execution →
      (execution.log.map (·.nodeId)).Nodup := by
  refine ⟨⟨_, _, _, rfl, rfl, rfl⟩, ⟨_, rfl, rfl⟩, ?_⟩
  have hfresh : Reachable (fun _ => True) (Sample.session { failCommits := [5] }) :=
    Sample.reachable_session trivial
  have hpaused := (hfresh.ask (Sample.start Sample.gated)).play 60
  have hrefused := (hpaused.ask (Sample.resume Sample.gated)).play 60
  have hretried := (hrefused.ask (Sample.resume Sample.gated)).play 7
  exact (Reachable.once hretried).1

end Session

end WorkflowEngine
