import Mathlib.Data.List.TakeWhile
import WorkflowEngine.Proofs.Session.Course
import WorkflowEngine.Proofs.Session.Passage
import WorkflowEngine.Proofs.Session.Undisturbed

/-!
What a stop leaves behind. The process may stop at any time, or a caller may drop a call; what remains
is the record as of the last commit that took effect, and whether another engine goes on with it is a
matter of the status this commit left. A paused execution is resumed, and so is a failed one that has
a checkpoint, and the run takes up the first node of the last queue that is neither a trigger nor has a
checkpoint. An execution that was running is refused from then on.

A commit that is on its way at the stop has taken effect before, or is lost.
-/
namespace WorkflowEngine

/-- While all saves of an execution follow one definition, its queues hold nodes of it only. -/
theorem Course.mem_nodeIds {chronicle : Chronicle} {workflow : Workflow} (h : Course chronicle)
    (hsaves : ∀ saved input, Deed.saved saved input ∈ chronicle → saved.workflow = workflow) :
    ∀ checkpoint ∈ chronicle.checkpoints, ∀ id ∈ checkpoint.pending, id ∈ workflow.nodeIds := by
  induction h with
  | created => 
      intro checkpoint hmem
      simp [Chronicle.checkpoints] at hmem
  | saved _ _ _ _ ih =>
      rw [Chronicle.checkpoints_saved]
      exact ih fun saved input hmem => hsaves saved input (List.mem_append_left _ hmem)
  | @appended chronicle scope added outcome h hscope hvisits ih =>
      have hbefore := ih fun saved input hmem => hsaves saved input (List.mem_append_left _ hmem)
      obtain ⟨input, hsaved⟩ := Chronicle.mem_of_scope? hscope
      have hworkflow : scope.workflow = workflow := hsaves scope input (List.mem_append_left _ hsaved)
      have hvalid : workflow.validate = .ok () := by
        rw [← hworkflow]
        exact (h.runnable hsaved).1.valid
      have hqueue : ∀ id ∈ scope.continuation chronicle.checkpoints, id ∈ workflow.nodeIds := by
        intro id hid
        unfold Scope.continuation at hid
        cases hlast : chronicle.checkpoints.getLast? with
        | none =>
            rw [hlast, hworkflow] at hid
            exact Workflow.mem_nodeIds_of_entry hvalid hid
        | some last =>
            rw [hlast] at hid
            exact hbefore last (List.mem_of_getLast? hlast) id hid
      intro checkpoint hmem id hid
      rw [Chronicle.checkpoints_appended] at hmem
      rcases List.mem_append.mp hmem with hold | hnew
      · exact hbefore checkpoint hold id hid
      · obtain rfl := List.mem_singleton.mp hnew
        obtain ⟨pending, hfront, hpending⟩ := hvisits.step
        rw [hpending] at hid
        rcases List.mem_append.mp hid with hqueued | hfollows
        · exact hqueue id ((Scope.mem_of_front hfront).2 id hqueued)
        · unfold Scope.followedBy at hfollows
          rw [hworkflow] at hfollows
          exact Workflow.mem_nodeIds_of_successor hvalid hfollows

namespace Call

variable {σ : Type} [ExecutionStore σ]

/-- What a call comes to by itself, by going on and by waiting. -/
def Comes (before after : Call × Engine × Host σ) : Prop :=
  ∃ steps, ∀ fuel, before.1.play (steps + fuel) before.2.1 before.2.2 =
    after.1.play fuel after.2.1 after.2.2

theorem Comes.trans {first second third : Call × Engine × Host σ} (h : Comes first second)
    (h' : Comes second third) : Comes first third := by
  obtain ⟨steps, hsteps⟩ := h
  obtain ⟨more, hmore⟩ := h'
  refine ⟨steps + more, fun fuel => ?_⟩
  rw [Nat.add_assoc, hsteps, hmore]

/-- A call that has to wait for a moment is there at that moment. -/
theorem comes_until {call : Call} {engine : Engine} {host : Host σ} {time : Nat}
    (hnow : host.now ≤ time) (hnext : host.now < time → call.next? engine host = none)
    (hwakes : call.wakesAt? = some time) :
    ∃ host' : Host σ, host'.store = host.store ∧ host'.now = time ∧
      Comes (call, engine, host) (call, engine, host') := by
  rcases Nat.eq_or_lt_of_le hnow with hsame | hless
  · exact ⟨host, rfl, hsame, 0, fun fuel => by rw [Nat.zero_add]⟩
  · refine ⟨host.waitUntil time, Host.waitUntil_store host time, Nat.max_eq_right hnow, 1, ?_⟩
    intro fuel
    rw [Nat.add_comm, Call.play, hnext hless, hwakes]

end Call

namespace Run

variable {σ : Type} [ExecutionStore σ] [LawfulStore σ] {scope : Scope} {run : Run}
  {engine : Engine} {host : Host σ} {execution : StoredExecution}

namespace Free

/-- A run that has to wait for its commit does so up to the moment it takes effect, or is answered. -/
private theorem waits (h : run.Free engine host execution) (scope : Scope) (purpose : Purpose)
    (flight : Flight) {host : Host σ} (time : Nat)
    (hwakes : (if flight.outcome.isNone then flight.landsAt else flight.answersAt) = time)
    (hnow : host.now ≤ time) (hearly : time < run.deadlineAt) :
    ∃ host' : Host σ, host'.store = host.store ∧ host'.now = time ∧
      Call.Comes (.driving scope (run.awaiting purpose flight), engine, host)
        (.driving scope (run.awaiting purpose flight), engine, host') := by
  refine Call.comes_until hnow ?_ ?_
  · intro hless
    have hwaits : (run.awaiting purpose flight).next? scope host =
        ((run.awaiting purpose flight).land? host <|>
          (run.awaiting purpose flight).step? scope host) :=
      next?_of_early (Nat.lt_trans hless hearly) h.quiet
    have hland : (run.awaiting purpose flight).land? host = none := by
      cases houtcome : flight.outcome with
      | none =>
          have hlate : ¬flight.landsAt ≤ host.now := by
            rw [houtcome] at hwakes
            simp only [Option.isNone_none, if_true] at hwakes
            omega
          simp [land?, Handle.land?, awaiting, houtcome, hlate]
      | some _ => simp [land?, Handle.land?, awaiting, houtcome]
    have hsettle : (run.awaiting purpose flight).step? scope host = none := by
      change settle? (run.awaiting purpose flight) purpose host = none
      cases houtcome : flight.outcome with
      | none => simp [settle?, Handle.answered?, awaiting, houtcome]
      | some _ =>
          have hlate : ¬flight.answersAt ≤ host.now := by
            rw [houtcome] at hwakes
            simp only [Option.isNone_some, Bool.false_eq_true, if_false] at hwakes
            omega
          simp [settle?, Handle.answered?, awaiting, houtcome, hlate]
    have hopen : (run.awaiting purpose flight).result? = none := rfl
    have hsame : (run.awaiting purpose flight).id = run.id := rfl
    unfold Call.next?
    simp only [hsame, h.uncancelled, Bool.or_false, hopen, hwaits, hland, hsettle]
    rfl
  · have hflight : (run.awaiting purpose flight).handle.wakesAt? = some time :=
      congrArg some hwakes
    have hdeadline : (run.awaiting purpose flight).deadlineAt = run.deadlineAt := rfl
    change (run.awaiting purpose flight).wakesAt? = some time
    unfold wakesAt?
    rw [hflight, hdeadline]
    cases (run.awaiting purpose flight).isInterruptible with
    | false => rfl
    | true =>
        change some (min run.deadlineAt time) = some time
        rw [Nat.min_eq_right (Nat.le_of_lt hearly)]

end Free

/-- A run has called a node, or, if nobody registered its type, is about to record its failure. -/
def Takes (scope : Scope) (run : Run) (node : NodeSpec) : Prop :=
  match scope.registry.get? node.nodeType with
  | some _ => ∃ call, run.stage = .executing call ∧ call.node = node
  | none => ∃ failure, run.stage = .committing (.failure failure) ∧ failure.nodeId = node.id

namespace Underway

end Underway

end Run

namespace Call

variable {σ : Type} [ExecutionStore σ] {engine : Engine} {host : Host σ} {request : ResumeRequest}
  {execution : StoredExecution} {workflow : Workflow}

/-- What can be resumed is, against its own definition, if that is fit to be run. -/
theorem prepareResume_own {state : ExecutionState} (hresume : state.canResume = true)
    (hdefinition : (request.workflow <|> engine.workflow? state.header.workflowId) = some workflow)
    (hown : workflow.id = state.header.workflowId) (haccept : engine.accept workflow = .ok ()) :
    prepareResume engine request state =
      .ok (workflow, request.input.elim state state.updateContext) := by
  have hworkflow : resumedWorkflow engine request state = .ok workflow := by
    simp only [resumedWorkflow, hdefinition, hown, haccept, bind, Except.bind, pure, Except.pure,
      ne_eq, not_true_eq_false, if_false]
  unfold prepareResume
  cases request.input <;>
    simp [hresume, hworkflow, bind, Except.bind, pure, Except.pure]

/-- Against the definition of others nothing is resumed. -/
theorem prepareResume_foreign {state : ExecutionState} (hresume : state.canResume = true)
    (hdefinition : (request.workflow <|> engine.workflow? state.header.workflowId) = some workflow)
    (hforeign : workflow.id ≠ state.header.workflowId) :
    prepareResume engine request state =
      .error (.workflow (.invalid ("execution " ++ request.id.toText ++ " belongs to workflow " ++
        state.header.workflowId ++ ", not " ++ workflow.id))) := by
  have hworkflow : resumedWorkflow engine request state =
      .error (.workflow (.invalid ("execution " ++ request.id.toText ++ " belongs to workflow " ++
        state.header.workflowId ++ ", not " ++ workflow.id))) := by
    simp only [resumedWorkflow, hdefinition, ne_eq, hforeign, not_false_eq_true, if_true, bind,
      Except.bind, pure, Except.pure]
    rfl
  simp [prepareResume, hresume, hworkflow, bind, Except.bind]

/-- A call to resume an execution that is not active reads header and log, and what it prepares of them
decides whether it is refused. -/
theorem play_read {header : ExecutionHeader} {log : List Checkpoint}
    (hidle : engine.isActive request.id = false)
    (hheader : ExecutionStore.loadHeader host.store request.id = .ok (some header))
    (hlog : ExecutionStore.loadCheckpoints host.store request.id 0 = .ok log) :
    ∃ active : Engine, active.isCancelled request.id = false ∧
      match prepareResume engine request (.ofRecord (ExecutionStore.assemble header log)) with
      | .error cause =>
        ∀ fuel, (Call.resuming request).play (fuel + 3) engine host =
          (.ended (.error cause), active.release request.id, host)
      | .ok (workflow, state) =>
        (∀ fuel, (Call.resuming request).play (fuel + 3) engine host =
          (drive active workflow state host).1.play fuel active
            (drive active workflow state host).2) ∧
        scopeOf active workflow = scopeOf engine workflow := by
  let active : Engine := { engine with active := engine.active ++ [⟨request.id, false⟩] }
  have hactivate : engine.activate request.id = .ok active := by
    simp [Engine.activate, hidle, active]
  have hcancelled : active.isCancelled request.id = false := by
    have hothers : ∀ activation ∈ engine.active, activation.id ≠ request.id := by
      simpa [Engine.isActive] using hidle
    simp only [active, Engine.isCancelled, List.any_append, List.any_cons, List.any_nil,
      Bool.and_false, Bool.or_false, List.any_eq_false]
    intro activation hmem
    simp [hothers activation hmem]
  have hreads : ∀ fuel, (Call.resuming request).play (fuel + 3) engine host =
      (Call.loadingLog request header).play (fuel + 1) active host := by
    intro fuel
    simp only [play, next?, hactivate, hheader]
  have hsame : ∀ state, prepareResume active request state = prepareResume engine request state :=
    fun _ => rfl
  refine ⟨active, hcancelled, ?_⟩
  cases hprepare : prepareResume engine request
      (.ofRecord (ExecutionStore.assemble header log)) with
  | error cause =>
      intro fuel
      rw [hreads]
      simp only [play, next?, hlog, hsame, hprepare]
      exact play_ended _ _ _ fuel
  | ok prepared =>
      obtain ⟨workflow, state⟩ := prepared
      refine ⟨fun fuel => ?_, rfl⟩
      rw [hreads]
      simp only [play, next?, hlog, hsame, hprepare]

variable [LawfulStore σ] [ReadableStore σ]

end Call

namespace Session

variable {σ : Type} [ExecutionStore σ] [LawfulStore σ] {Kind : σ → Prop} {session : Session σ}

/-- The sessions that begin with an empty store of some kind, where at any time a caller may drop a
call, and the process may stop and an engine of another one take over the store. -/
inductive Survives (Kind : σ → Prop) : Session σ → Prop
  | initial {engine : Engine} {host : Host σ}
      (hempty : ∀ id, LawfulStore.stored host.store id = none) (hkind : Kind host.store) :
      Survives Kind { engine, host }
  | step {session later : Session σ} (h : Survives Kind session) (hstep : session.Step later) :
      Survives Kind later
  | drop {session : Session σ} {task : Task} {others : List Task} (h : Survives Kind session)
      (htasks : session.tasks.Perm (task :: others)) :
      Survives Kind { session with
        engine := task.call.holds?.elim session.engine session.engine.release
        tasks := others }
  | restart {session : Session σ} {engine : Engine} {host : Host σ} (h : Survives Kind session)
      (hidle : engine.active = []) (hstore : host.store = session.host.store) :
      Survives Kind { engine, host, chronicles := session.chronicles }

theorem Reachable.survives (h : Reachable Kind session) : Survives Kind session := by
  induction h with
  | initial _ hempty hkind => exact .initial hempty hkind
  | step _ hstep ih => exact ih.step hstep

theorem Survives.mono {Kind' : σ → Prop} (hkind : ∀ store, Kind store → Kind' store)
    (h : Survives Kind session) : Survives Kind' session := by
  induction h with
  | initial hempty hinitial => exact .initial hempty (hkind _ hinitial)
  | step _ hstep ih => exact ih.step hstep
  | drop _ htasks ih => exact ih.drop htasks
  | restart _ hidle hstore ih => exact ih.restart hidle hstore

/-- What runs keep at any time holds also where they are stopped at any time. -/
theorem Survives.orderly {AtRest : Chronicle → StoredExecution → Prop}
    {InHand : Request → Scope → Run → Chronicle → StoredExecution → Prop}
    (custody : Custody Kind AtRest InHand)
    (hdrop : ∀ {request scope run chronicle execution},
      InHand request scope run chronicle execution → AtRest chronicle execution)
    (h : Survives Kind session) : session.Orderly Kind AtRest InHand := by
  induction h with
  | initial hempty hkind => exact orderly_initial hempty hkind
  | step _ hstep ih => exact ih.step custody hstep
  | drop _ htasks ih => exact ih.drop hdrop htasks
  | restart _ _ hstore ih => exact ih.restart hdrop hstore

variable [ReadableStore σ]

end Session

namespace Sample

/-- The engine of another process. -/
def successor : Engine := { registry }

end Sample

namespace Session

end Session

end WorkflowEngine
