import WorkflowEngine.Proofs.Engine.Ending
import WorkflowEngine.Proofs.Session.Allotment
import WorkflowEngine.Proofs.Session.Frame
import WorkflowEngine.Proofs.Session.Once

/-!
# Bounded work

Whatever cycles a definition has, a call comes to an end, and its run takes no more entries from its
queue than the definition has edges, beyond those it begins with. A history of calls that follow one
definition leaves no more checkpoints than this has nodes to execute, and counts no more steps than its
header says there are.
-/
namespace WorkflowEngine

namespace Course

variable {chronicle : Chronicle} {workflow : Workflow} {isTrigger : String → Bool}

/-- While all saves of an execution follow one definition, so does what its log leaves to visit. -/
theorem mem_continuation {scope : Scope} (h : Course chronicle)
    (hsaves : ∀ saved input, Deed.saved saved input ∈ chronicle →
      saved.workflow = scope.workflow)
    (hvalid : scope.workflow.validate = .ok ()) :
    ∀ id ∈ scope.continuation chronicle.checkpoints, id ∈ scope.workflow.nodeIds := by
  intro id hid
  unfold Scope.continuation at hid
  cases hlast : chronicle.checkpoints.getLast? with
  | none =>
      rw [hlast] at hid
      exact Workflow.mem_nodeIds_of_entry hvalid hid
  | some last =>
      rw [hlast] at hid
      exact h.mem_nodeIds hsaves last (List.mem_of_getLast? hlast) id hid

/-- What has a checkpoint is a node of the definition, and no trigger. -/
theorem mem_executable (h : Course chronicle)
    (hsaves : ∀ scope input, Deed.saved scope input ∈ chronicle →
      scope.workflow = workflow ∧ scope.config.isTrigger = isTrigger) :
    ∀ checkpoint ∈ chronicle.checkpoints, checkpoint.nodeId ∈
      (workflow.nodes.filter fun node => !isTrigger node.nodeType).map (·.id) := by
  intro checkpoint hcheckpoint
  obtain ⟨status, hmem⟩ := Chronicle.mem_checkpoints.mp hcheckpoint
  obtain ⟨begun, rest, rfl⟩ := List.append_of_mem hmem
  have hbegins : begun ++ [.appended checkpoint status] <+:
      begun ++ .appended checkpoint status :: rest := ⟨rest, by simp⟩
  obtain ⟨scope, outcome, hscope, hvisits⟩ := (h.upTo hbegins (by simp)).visits_last
  obtain ⟨input, hsaved⟩ := Chronicle.mem_of_scope? hscope
  obtain ⟨rfl, rfl⟩ := hsaves scope input (List.mem_append_left _ hsaved)
  have hvalid := (h.runnable (List.mem_append_left _ hsaved)).1.valid
  have hbefore : Course begun := by
    refine h.upTo ⟨_, rfl⟩ ?_
    rintro rfl
    cases hsaved
  obtain ⟨pending, hfront, -⟩ := hvisits.step
  have hknown : checkpoint.nodeId ∈ scope.workflow.nodeIds :=
    hbefore.mem_continuation
      (fun saved input hmem => (hsaves saved input (List.mem_append_left _ hmem)).1) hvalid _
      (Scope.mem_of_front hfront).1
  obtain ⟨node, hnode⟩ := Workflow.exists_node_of_mem hknown
  have htrigger := Scope.isTriggerId_of_front hfront
  rw [Scope.isTriggerId_of_node hnode] at htrigger
  refine List.mem_map.mpr ⟨node, List.mem_filter.mpr ⟨Workflow.mem_nodes_of_node? hnode, ?_⟩, ?_⟩
  · rw [← Scope.isTrigger, htrigger]
    rfl
  · have hid := List.find?_some hnode
    exact eq_of_beq hid

end Course

/-- A list of different nodes to execute is no longer than their number. -/
theorem Workflow.length_le_executableCount {workflow : Workflow} {isTrigger : String → Bool}
    {ids : List NodeId} (hnodup : ids.Nodup)
    (hids : ∀ id ∈ ids, id ∈ (workflow.nodes.filter fun node => !isTrigger node.nodeType).map (·.id)) :
    ids.length ≤ workflow.executableCount isTrigger := by
  have hlength := (List.subperm_of_subset hnodup hids).length_le
  rwa [List.length_map] at hlength

namespace Session

variable {σ : Type} [ExecutionStore σ] [LawfulStore σ] {Kind : σ → Prop} {session : Session σ}

/-- Every call is where a call may be found in its course. -/
theorem Survives.regular (h : Survives Kind session) : ∀ task ∈ session.tasks, task.call.Regular := by
  induction h with
  | initial =>
      intro task htask
      cases htask
  | @step session later h hstep ih =>
      cases hstep with
      | ask request =>
          intro task htask
          rcases List.mem_cons.mp htask with rfl | hold
          · cases request <;> trivial
          · exact ih task hold
      | advance htasks hnext =>
          intro task htask
          rcases List.mem_cons.mp htask with rfl | hold
          · exact ((ih _ (htasks.mem_iff.mpr List.mem_cons_self)).goesOn
              ⟨_, _, _, _, hnext⟩).1
          · exact ih task (htasks.mem_iff.mpr (List.mem_cons_of_mem _ hold))
      | wait | cancel | register | remove | replace => exact ih
  | drop h htasks ih =>
      exact fun task htask => ih task (htasks.mem_iff.mpr (List.mem_cons_of_mem _ htask))
  | restart =>
      intro task htask
      cases htask

variable {id : ExecutionId} {execution : StoredExecution}

/-- On a store that is only slow, a chronicle recounts its record. -/
theorem Survives.recounts (h : Survives LawfulStore.Reliable session)
    (hstored : session.stored id = some execution) :
    (session.chronicles id).Recounts execution := by
  obtain ⟨-, hrest, hclear⟩ | ⟨_, -, _, _, -, -, hrest, -, hclear⟩ :=
    (Survives.orderly course_conduct.reliable
      (fun hinHand => ⟨hinHand.1, hinHand.2.1, hinHand.2.2.2⟩) h).kept hstored
  · exact hrest hclear
  · exact hrest hclear

theorem Survives.nodup_nodeIds (h : Survives LawfulStore.Reliable session)
    (hstored : session.stored id = some execution) : execution.nodeIds.Nodup := by
  obtain ⟨-, hrest⟩ | ⟨_, -, _, _, -, -, hrest, -⟩ :=
    (Survives.orderly once_conduct.reliable
      (fun hinHand => ⟨hinHand.1, hinHand.2.1, hinHand.2.2.2⟩) h).kept hstored
  · exact hrest.1
  · exact hrest

/-- While an execution follows one definition under the same trigger types, it has no more checkpoints
than there are nodes to execute. -/
theorem Survives.length_log_le (h : Survives LawfulStore.Reliable session)
    (hstored : session.stored id = some execution) {workflow : Workflow} {isTrigger : String → Bool}
    (hsaves : ∀ scope input, Deed.saved scope input ∈ session.chronicles id →
      scope.workflow = workflow ∧ scope.config.isTrigger = isTrigger) :
    execution.log.length ≤ workflow.executableCount isTrigger := by
  have hrecounts := h.recounts hstored
  have hids : ∀ node ∈ execution.nodeIds, node ∈
      (workflow.nodes.filter fun node => !isTrigger node.nodeType).map (·.id) := by
    intro node hnode
    obtain ⟨checkpoint, hcheckpoint, rfl⟩ := List.mem_map.mp hnode
    rw [hrecounts.tells.log] at hcheckpoint
    exact hrecounts.course.mem_executable hsaves checkpoint hcheckpoint
  have hlength := Workflow.length_le_executableCount (h.nodup_nodeIds hstored) hids
  rwa [StoredExecution.nodeIds, List.length_map] at hlength

/-- At any time, also after any number of stops, on a store that is only slow. Every call, wherever it
stands, comes to an end when it is played, and goes on a finite number of times only, whatever happens
in between. From where a run begins, its call takes no more entries of the queue than this has then and
the definition has edges. And while all saves of an execution follow one definition under the same
trigger types, its log has no more checkpoints than there are nodes to execute, and its current step is
at most the number of steps it was given. -/
theorem Survives.bounded (h : Survives LawfulStore.Reliable session) :
    (∀ task ∈ session.tasks,
      (∃ fuel outcome engine host,
        task.call.play fuel session.engine session.host = (.ended outcome, engine, host)) ∧
      ∀ calls : Nat → Call, calls 0 = task.call →
        ∃ index, ¬(calls index).GoesOn σ (calls (index + 1))) ∧
    (∀ (call later : Call) (engine engine' : Engine) (host host' : Host σ) (scope : Scope)
      (run : Run) (entries : Nat), call.running? = none →
      call.next? engine host = some (.driving scope run, engine', host') →
      Call.Takes σ (.driving scope run) entries later →
        entries ≤ run.queue.length + scope.workflow.connections.length) ∧
    ∀ id execution workflow isTrigger, session.stored id = some execution →
      (∀ scope input, Deed.saved scope input ∈ session.chronicles id →
        scope.workflow = workflow ∧ scope.config.isTrigger = isTrigger) →
      execution.log.length ≤ workflow.executableCount isTrigger ∧
        execution.header.currentStep ≤ execution.header.totalSteps := by
  refine ⟨fun task htask => ⟨?_, ?_⟩, ?_, ?_⟩
  · exact (h.regular task htask).play_ends session.engine session.host
  · intro calls hfirst
    exact Call.Regular.finite calls (hfirst ▸ h.regular task htask)
  · intro call later engine engine' host host' scope run entries hidle hnext htakes
    obtain ⟨-, hbegins⟩ | ⟨_, _, _, _, rfl, -, -⟩ := Call.next?_cases hnext
    · obtain ⟨state, cancelled, rfl⟩ := hbegins scope run rfl
      exact htakes.le
    · cases hidle
  · intro id execution workflow isTrigger hstored hsaves
    have hlog := h.length_log_le hstored hsaves
    have hsteps : execution.header.currentStep ≤ execution.log.length := by
      rw [(h.recounts hstored).tells.currentStep]
      exact List.countP_le_length
    refine ⟨hlog, ?_⟩
    by_cases hempty : execution.log = []
    · rw [hempty, List.length_nil] at hsteps
      omega
    · obtain ⟨scope, input, hsaved, htotal⟩ := h.totalSteps hstored hempty
      obtain ⟨rfl, rfl⟩ := hsaves scope input hsaved
      rw [htotal]
      exact Nat.le_trans hsteps hlog

end Session

namespace Sample

/-- A way in, and behind it two nodes with edges to themselves and to each other; the first one waits. -/
def roundabout : Workflow where
  id := "roundabout"
  nodes := [⟨"enter", "test.step", none, [], none⟩, ⟨"north", "test.wait", none, [], none⟩,
    ⟨"south", "test.step", none, [], none⟩]
  connections := [⟨"enter", "north", defaultPort, defaultPort⟩,
    ⟨"enter", "north", defaultPort, defaultPort⟩, ⟨"north", "north", defaultPort, defaultPort⟩,
    ⟨"north", "south", defaultPort, defaultPort⟩, ⟨"south", "north", defaultPort, defaultPort⟩]

/-- The roundabout was entered, and left after the wait. -/
def rounded : Session (FaultyStore MemoryStore) :=
  ((((session {}).ask (start roundabout)).play 60).ask (resume roundabout)).play 60

theorem survives_rounded : Session.Survives LawfulStore.Reliable rounded :=
  (((reachable_start ⟨rfl, rfl, trivial⟩ roundabout 60).ask _).play 60).survives

end Sample

namespace Session

/-- A run around a cycle and its resumption come to an end, and leave one checkpoint for each node. -/
theorem Survives.bounded_of_cycle :
    (∀ task ∈ (Sample.rounded.ask (Sample.start Sample.roundabout)).tasks,
      ∃ fuel outcome engine host, task.call.play fuel Sample.rounded.engine Sample.rounded.host =
        (.ended outcome, engine, host)) ∧
    ∃ execution, Sample.rounded.stored Sample.firstId = some execution ∧
      execution.log.map (·.nodeId) = ["enter", "north", "south"] ∧
      execution.header.status = .completed ∧ execution.log.length ≤
        Sample.roundabout.executableCount Configuration.standard.isTrigger ∧
      execution.header.currentStep ≤ execution.header.totalSteps := by
  have hrecord : (Sample.rounded.stored Sample.firstId).map (fun execution =>
      (execution.log.map (·.nodeId), execution.header.status)) =
        some (["enter", "north", "south"], .completed) := by
    decide
  obtain ⟨execution, hstored, hfields⟩ := Option.map_eq_some_iff.mp hrecord
  simp only [Prod.mk.injEq] at hfields
  obtain ⟨scope, again, enter, north, south, hchronicle, hscope, hagain⟩ :
      ∃ scope again enter north south, Sample.rounded.chronicles Sample.firstId =
        [.created ⟨Sample.roundabout, "user", []⟩, .saved scope none, .appended enter .running,
          .appended north .paused, .saved again none, .appended south .running] ∧
        (scope.workflow = Sample.roundabout ∧
          scope.config.isTrigger = Configuration.standard.isTrigger) ∧
        again.workflow = Sample.roundabout ∧
          again.config.isTrigger = Configuration.standard.isTrigger :=
    ⟨_, _, _, _, _, rfl, ⟨rfl, rfl⟩, rfl, rfl⟩
  have hsaves : ∀ saved input, Deed.saved saved input ∈ Sample.rounded.chronicles Sample.firstId →
      saved.workflow = Sample.roundabout ∧
        saved.config.isTrigger = Configuration.standard.isTrigger := by
    intro saved input hsaved
    rw [hchronicle] at hsaved
    simp only [List.mem_cons, Deed.saved.injEq, reduceCtorEq, List.not_mem_nil, or_false,
      false_or] at hsaved
    rcases hsaved with ⟨rfl, -⟩ | ⟨rfl, -⟩
    · exact hscope
    · exact hagain
  obtain ⟨-, -, hrecords⟩ := Survives.bounded Sample.survives_rounded
  obtain ⟨hlog, hsteps⟩ := hrecords _ execution _ _ hstored hsaves
  have hasked : Survives LawfulStore.Reliable
      (Sample.rounded.ask (Sample.start Sample.roundabout)) :=
    Sample.survives_rounded.step (.ask _)
  exact ⟨fun task htask => ((Survives.bounded hasked).1 task htask).1, execution, hstored,
    hfields.1, hfields.2, hlog, hsteps⟩

end Session

end WorkflowEngine
