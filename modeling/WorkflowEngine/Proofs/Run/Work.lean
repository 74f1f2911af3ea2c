import Mathlib.Data.Prod.Lex
import WorkflowEngine.Proofs.Graph.Path
import WorkflowEngine.Proofs.Run.Bearing

/-!
# The work a run has left

A run takes one entry of its queue at a time, and a node that succeeds puts at most its outgoing edges
into the queue, once. So what is in the queue and the edges of nodes that are not dispatched yet bound
what is still to be taken, and every step brings the run nearer to its end: it takes an entry, goes on
to a later stage, lets its commit land or lets a call go on.

Nothing is assumed of what happens on the host between two steps, nor of the store.
-/
namespace WorkflowEngine

namespace Behaviour

/-- What a call does before it answers. -/
def length : Behaviour → Nat
  | .answer _ => 0
  | .emit _ rest => rest.length + 1
  | .sleep _ rest => rest.length + 1
  | .hang _ => 0

end Behaviour

namespace Run

/-- Entries that were taken from the queue between two states of a run. -/
def taken (before after : Run) : Nat := before.queue.length - after.queue.length

/-- Looking at the next node takes one entry, whatever is found there. -/
theorem taken_dispatch {σ : Type} [ExecutionStore σ] {run : Run} {id : NodeId}
    {pending : List NodeId} (hqueue : run.queue = id :: pending) (scope : Scope) (host : Host σ) :
    run.taken (run.dispatch scope host).1 = 1 := by
  have hrest : (run.dispatch scope host).1.queue = pending := by
    unfold dispatch failKnown failNode commit call
    simp only [hqueue]
    split
    · rfl
    · split
      · split <;> rfl
      · split
        · rfl
        · split
          · split <;> rfl
          · rfl
  rw [taken, hrest, hqueue, List.length_cons]
  omega

/-- What a stage is about to put into the queue. -/
def Stage.coming : Stage → Nat
  | .committing purpose => purpose.successors.length
  | _ => 0

@[simp] theorem Purpose.coming_next (purpose : Purpose) : purpose.next.coming = 0 := by
  cases purpose <;> rfl

@[simp] theorem Purpose.coming_refused (purpose : Purpose) (cause : EngineError) :
    (purpose.refused cause).coming = 0 := by
  cases purpose <;> rfl

/-- The most entries a run may still take. -/
def due (scope : Scope) (run : Run) : Nat :=
  run.queue.length + run.stage.coming + (scope.workflow.openEdges run.dispatched).length

/-- How far a stage is from the end, as long as no entry is taken. -/
def Stage.rank : Stage → Nat
  | .entering => 9
  | .executing _ => 9
  | .committing .conclusion => 6
  | .committing (.abort _) => 2
  | .committing _ => 8
  | .dispatching => 7
  | .settling _ => 5
  | .catchingUp _ _ => 4
  | .aborting _ => 3
  | .finished _ => 1

/-- What a run does without going on to another stage. -/
def effort (run : Run) : Nat :=
  (match run.stage with
    | .executing call => call.rest.length + (1 - run.attentive)
    | _ => 0) +
  if run.handle.flight.any (·.outcome.isNone) then 1 else 0

/-- What every step of a run makes less. -/
def remaining (scope : Scope) (run : Run) : ℕ ×ₗ ℕ ×ₗ ℕ :=
  toLex (run.due scope, toLex (run.stage.rank, run.effort))

/-- A run as it may be found in its course: a node that is called was not dispatched before, and a
commit is on its way only where the run waits for it. -/
structure Regular (run : Run) : Prop where
  bears : run.stage ≠ .entering → run.Bears fun _ => True
  stands :
    match run.stage with
    | .entering => run.handle.flight = none
    | .dispatching => run.handle.flight = none
    | .executing call => run.handle.flight = none ∧ call.node.id ∉ run.dispatched
    | .committing _ => run.handle.flight ≠ none
    | _ => True

variable {σ : Type} [ExecutionStore σ] {scope : Scope} {run run' : Run} {host host' : Host σ}

omit [ExecutionStore σ] in
theorem Regular.start (scope : Scope) (state : ExecutionState) (cancelled : Bool) (host : Host σ) :
    (Run.start scope state cancelled host).1.Regular :=
  ⟨fun hstage => absurd rfl hstage, rfl⟩

theorem Regular.attend (h : run.Regular) (cancelled : Bool) : Regular { run with cancelled } :=
  ⟨fun hstage => (h.bears hstage).attend cancelled, h.stands⟩

/-- What a run that cannot enter does: it is given up, or interrupted before that. -/
theorem next?_of_barred (hstage : run.stage = .entering)
    (hbarred : run.state.status.canBecome .running = false) (hflight : run.handle.flight = none)
    (hnext : run.next? scope host = some (run', host')) :
    run'.queue = run.queue ∧ run'.dispatched = run.dispatched ∧ run'.handle.flight = none ∧
      ∃ cause, run'.stage = .settling cause ∨ run'.stage = .aborting cause := by
  unfold next? at hnext
  cases hcause : run.interruption? host with
  | some cause =>
      rw [hcause] at hnext
      cases hnext
      exact ⟨rfl, rfl, hflight, cause, Or.inl rfl⟩
  | none =>
      have hland : run.land? host = none := by simp [land?, Handle.land?, hflight]
      simp only [hcause, hland, step?, hstage, ExecutionState.setStatus, hbarred] at hnext
      cases hnext
      exact ⟨rfl, rfl, hflight, _, Or.inr rfl⟩

/-- What a run does next: its commit lands, it acts, or it is given up before it begins. -/
theorem Regular.next_cases (h : run.Regular) (hnext : run.next? scope host = some (run', host')) :
    run.Lands host run' host' ∨ (run.Legal ∧ run.Act scope host run') ∨
      run.stage = .entering ∧ run'.queue = run.queue ∧ run'.dispatched = run.dispatched ∧
        run'.handle.flight = none ∧
        ∃ cause, run'.stage = .settling cause ∨ run'.stage = .aborting cause := by
  by_cases hlegal : run.Legal
  · obtain ⟨-, hlands | ⟨-, hact⟩⟩ := next?_cases hnext
    · exact Or.inl hlands
    · exact Or.inr (Or.inl ⟨hlegal, hact⟩)
  · have hstage : run.stage = .entering := by
      by_contra hother
      exact hlegal (h.bears hother).legal
    have hflight := h.stands
    simp only [hstage] at hflight
    simp only [Legal, hstage, Bool.not_eq_true] at hlegal
    exact Or.inr (Or.inr ⟨hstage, next?_of_barred hstage hlegal hflight hnext⟩)

omit [ExecutionStore σ] in
theorem Regular.bears_of_legal (h : run.Regular) (hlegal : run.Legal) : run.Bears fun _ => True := by
  by_cases hstage : run.stage = .entering
  · refine ⟨trivial, fun _ _ => trivial, ?_⟩
    simp only [Legal, hstage] at hlegal
    simpa only [hstage] using hlegal
  · exact h.bears hstage

/-- A run stays regular. -/
theorem Regular.next (h : run.Regular) (hnext : run.next? scope host = some (run', host')) :
    run'.Regular := by
  have hstands := h.stands
  obtain hlands | ⟨hlegal, hact⟩ | ⟨-, -, -, hflight, cause, hstage⟩ := h.next_cases hnext
  · refine ⟨fun hstage => ?_, ?_⟩
    · cases hlands with
      | intro hflight houtcome hstore =>
          have hlanded : run.Lands host _ host' := .intro hflight houtcome hstore
          exact (h.bears hstage).land hlanded
    · cases hlands with
      | intro hflight =>
          cases hstage : run.stage <;> simp_all
  · refine ⟨fun _ => (h.bears_of_legal hlegal).act (fun _ _ => trivial) hact, ?_⟩
    cases hact with
    | ask => simp
    | skip hstage =>
        simp only [hstage] at hstands ⊢
        exact hstands
    | call earlier hstage hqueue hnew _ _ _ hcall =>
        simp only [hstage] at hstands
        exact ⟨hstands, hcall ▸ hnew⟩
    | unfold hstage hnode =>
        simp only [hstage] at hstands
        exact ⟨hstands.1, hnode ▸ hstands.2⟩
    | @settle purpose => cases purpose <;> trivial
    | @refuse purpose => cases purpose <;> trivial
    | stray hillegal => exact absurd hlegal hillegal
    | _ => trivial
  · refine ⟨fun _ => ⟨trivial, by simp [hflight], ?_⟩, ?_⟩ <;>
      rcases hstage with hstage | hstage <;> rw [hstage] <;> trivial

omit [ExecutionStore σ] in
/-- What a run asks a commit for takes at most one entry, and puts no more into the queue than it
closes. -/
theorem Regular.due_demand (h : run.Regular) {demand : Demand} (hdemand : run.Demands scope demand) :
    run.queue.length - demand.queue.length + (demand.queue.length +
        demand.purpose.successors.length + (scope.workflow.openEdges demand.dispatched).length) ≤
      run.queue.length + (scope.workflow.openEdges run.dispatched).length := by
  have hstands := h.stands
  cases hdemand with
  | entry | conclusion | abandonment => simp [Purpose.successors]
  | failure id time hfails =>
      cases hfails with
      | unknown _ hqueue | missing _ hqueue =>
          simp only [hqueue, List.length_cons, Purpose.successors, List.length_nil]
          omega
      | failed => simp [Purpose.successors]
  | @completion call outcome id time durationMs hstage =>
      simp only [hstage] at hstands
      have hedges := scope.workflow.length_successors_add_le hstands.2
        (if scope.workflow.isBranch call.node.id then outcome.selection else none)
      simp only [Purpose.successors, followed]
      omega
  | @pause call outcome state id time hstage =>
      have hedges := scope.workflow.length_openEdges_cons_le run.dispatched call.node.id
      simp only [Purpose.successors, List.length_nil]
      omega

/-- No step takes more than it makes less due. -/
theorem Regular.due_next (h : run.Regular) (hnext : run.next? scope host = some (run', host')) :
    run.taken run' + run'.due scope ≤ run.due scope := by
  unfold taken due
  obtain hlands | ⟨hlegal, hact⟩ | ⟨hstage, hqueue, hdispatched, -, cause, hstage'⟩ :=
    h.next_cases hnext
  · cases hlands with
    | intro => simp
  · cases hact with
    | ask time hdemand =>
        have hdue := h.due_demand hdemand
        simp only [Stage.coming]
        omega
    | skip hstage hqueue | call earlier hstage hqueue =>
        simp only [hstage, hqueue, List.length_cons, Stage.coming]
        omega
    | unfold hstage => simp [hstage, Stage.coming]
    | @settle purpose flight hstage =>
        have hcoming : run.stage.coming = purpose.successors.length := by rw [hstage]; rfl
        simp only [hcoming, Purpose.coming_next, List.length_append]
        omega
    | refuse =>
        simp only [Purpose.coming_refused]
        omega
    | stray hillegal => exact absurd hlegal hillegal
    | interrupt | compare | fallBehind | adopt | stayBehind | close =>
        simp [withState, Stage.coming]
  · have hcoming : run'.stage.coming = 0 := by
      rcases hstage' with hstage' | hstage' <;> rw [hstage'] <;> rfl
    simp [hqueue, hdispatched, hcoming]

/-- What is recorded of a call ends it. -/
theorem record_stage (run : Run) (scope : Scope) (call call' : NodeCall) (result : NodeResult)
    (host : Host σ) : (run.record scope call result host).1.stage ≠ .executing call' := by
  unfold record failKnown failNode commit
  split
  · dsimp only
    split <;> simp [setStage]
  · dsimp only
    split
    · split <;> simp [setStage]
    · simp

/-- What is left of a call that goes on gets less. -/
theorem effort_unfold {call call' : NodeCall} (hstage : run.stage = .executing call)
    (hflight : run.handle.flight = none) (hnext : run.next? scope host = some (run', host'))
    (hstage' : run'.stage = .executing call') : run'.effort < run.effort := by
  unfold next? at hnext
  cases hcause : run.interruption? host with
  | some cause =>
      rw [hcause] at hnext
      cases hnext
      cases hstage'
  | none =>
      have hland : run.land? host = none := by simp [land?, Handle.land?, hflight]
      have hgoes : run.goOn? scope call host = some (run', host') := by
        simpa [hcause, hland, step?, hstage] using hnext
      have hrecorded : ∀ result, run.record scope call result host ≠ (run', host') := by
        intro result heq
        refine run.record_stage scope call call' result host ?_
        rw [heq]
        exact hstage'
      have hexpired : (expired? call host).map
          (fun error => run.record scope call (.error error) host) ≠ some (run', host') := by
        intro hexpire
        obtain ⟨error, -, heq⟩ := Option.map_eq_some_iff.mp hexpire
        exact hrecorded _ heq
      unfold goOn? at hgoes
      dsimp only at hgoes
      split at hgoes
      · exact absurd hgoes hexpired
      · split at hgoes
        next => exact absurd (Option.some.inj hgoes) (hrecorded _)
        next event rest hrest =>
          cases hgoes
          simp [effort, hstage, setStage, hrest, hflight, Behaviour.length]
        next ms rest hrest =>
          cases hgoes
          simp [effort, hstage, setStage, hrest, hflight, Behaviour.length]
        next attentive hrest =>
          split at hgoes
          next hattentive =>
            simp only [Bool.and_eq_true, decide_eq_true_eq] at hattentive
            cases hgoes
            simp [effort, hstage, hflight, hattentive.2]
          next => exact absurd hgoes hexpired

omit [ExecutionStore σ] in
/-- There is less to do where an entry was taken, a later stage was reached or less effort is left. -/
theorem remaining_lt (hdue : run'.due scope ≤ run.due scope)
    (hless : run'.due scope < run.due scope ∨ run'.stage.rank < run.stage.rank ∨
      run'.stage.rank = run.stage.rank ∧ run'.effort < run.effort) :
    run'.remaining scope < run.remaining scope := by
  unfold remaining
  simp only [Prod.Lex.toLex_lt_toLex]
  omega

omit [ExecutionStore σ] in
/-- What can be interrupted is before the stages behind an interruption. -/
theorem rank_of_open (hopen : run.isInterruptible = true) : 5 < run.stage.rank := by
  cases hstage : run.stage with
  | committing purpose => cases purpose <;> simp_all [isInterruptible, Stage.rank]
  | _ => simp_all [isInterruptible, Stage.rank]

omit [ExecutionStore σ] in
/-- What a run asks a commit for is a later stage, or took an entry. -/
theorem rank_demand {demand : Demand} (hdemand : run.Demands scope demand) :
    (Stage.committing demand.purpose).rank < run.stage.rank ∨
      demand.queue.length < run.queue.length := by
  cases hdemand with
  | entry hstage | conclusion hstage | completion _ _ _ hstage | pause _ _ hstage
  | abandonment hstage => simp [hstage, Stage.rank]
  | failure id time hfails =>
      cases hfails with
      | unknown _ hqueue | missing _ hqueue => simp [hqueue]
      | failed hstage => simp [hstage, Stage.rank]

/-- Every step of a run leaves less to do. -/
theorem Regular.remaining_next (h : run.Regular)
    (hnext : run.next? scope host = some (run', host')) :
    run'.remaining scope < run.remaining scope := by
  have hdue := h.due_next hnext
  have hstands := h.stands
  refine remaining_lt (by omega) ?_
  unfold taken at hdue
  obtain hlands | ⟨hlegal, hact⟩ | ⟨hstage, -, -, -, cause, hstage'⟩ := h.next_cases hnext
  · cases hlands with
    | intro hflight houtcome => exact Or.inr (Or.inr ⟨rfl, by simp [effort, hflight, houtcome]⟩)
  · cases hact with
    | interrupt cause hopen =>
        exact Or.inr (Or.inl (rank_of_open hopen))
    | ask time hdemand =>
        obtain hrank | htaken := rank_demand hdemand
        · exact Or.inr (Or.inl hrank)
        · dsimp only at hdue
          omega
    | skip hstage hqueue | call earlier hstage hqueue =>
        simp only [hqueue, List.length_cons] at hdue
        omega
    | unfold hstage =>
        simp only [hstage] at hstands
        exact Or.inr (Or.inr ⟨by simp [hstage, Stage.rank], effort_unfold hstage hstands.1 hnext rfl⟩)
    | @settle purpose flight hstage =>
        refine Or.inr (Or.inl ?_)
        rw [hstage]
        cases purpose <;> simp [Purpose.next, Stage.rank]
    | @refuse purpose flight cause hstage =>
        refine Or.inr (Or.inl ?_)
        rw [hstage]
        cases purpose <;> simp [Purpose.refused, Stage.rank]
    | stray hillegal => exact absurd hlegal hillegal
    | compare hstage | fallBehind hstage | adopt hstage | stayBehind hstage | close hstage =>
        exact Or.inr (Or.inl (by simp [hstage, Stage.rank]))
  · refine Or.inr (Or.inl ?_)
    rcases hstage' with hstage' | hstage' <;> simp [hstage, hstage', Stage.rank]

/-- Where a run can step by itself, something happens next. -/
theorem next?_of_step (h : (run.step? scope host).isSome = true) :
    (run.next? scope host).isSome = true := by
  unfold next?
  cases run.interruption? host with
  | some cause => rfl
  | none => cases hland : run.land? host <;> simp_all

/-- At its deadline a run is interrupted, if it can be. -/
theorem next?_of_deadline (hopen : run.isInterruptible = true) (htime : run.deadlineAt ≤ host.now) :
    (run.next? scope host).isSome = true := by
  have hcause : (run.interruption? host).isSome = true := by
    unfold interruption?
    simp only [hopen, Bool.not_true, Bool.false_eq_true, if_false, htime, if_true]
    split <;> rfl
  obtain ⟨cause, hcause⟩ := Option.isSome_iff_exists.mp hcause
  simp [next?, hcause]

/-- At its time a commit on its way lands, or its outcome is known. -/
theorem next?_of_flight {flight : Flight} (hflight : run.handle.flight = some flight)
    (htime : (if flight.outcome.isNone then flight.landsAt else flight.answersAt) ≤ host.now)
    (hstep : (run.handle.answered? host.now).isSome = true →
      (run.step? scope host).isSome = true) : (run.next? scope host).isSome = true := by
  cases houtcome : flight.outcome with
  | some outcome =>
      rw [houtcome] at htime
      refine next?_of_step (hstep ?_)
      simpa [Handle.answered?, hflight, houtcome] using htime
  | none =>
      rw [houtcome] at htime
      unfold next?
      cases run.interruption? host with
      | some cause => rfl
      | none =>
          have hland : (run.land? host).isSome = true := by
            simpa [land?, Handle.land?, hflight, houtcome] using htime
          obtain ⟨landed, hlanded⟩ := Option.isSome_iff_exists.mp hland
          simp [hlanded]

/-- A call goes on at the time its node awakes, and ends at its limit. -/
theorem goOn?_of_time {call : NodeCall} {time : Nat}
    (hmem : (time = call.resumesAt ∧ ∀ attentive, call.rest ≠ .hang attentive) ∨
      ∃ ms, call.limit = some (ms, time))
    (htime : time ≤ host.now) : (run.goOn? scope call host).isSome = true := by
  have hexpired : (∃ ms, call.limit = some (ms, time)) → (expired? call host).isSome = true := by
    rintro ⟨ms, hlimit⟩
    simp [expired?, hlimit, htime]
  unfold goOn?
  dsimp only
  by_cases hearly : host.now < call.resumesAt
  · rw [if_pos hearly, Option.isSome_map]
    exact hexpired (hmem.resolve_left fun hawake => by omega)
  · rw [if_neg hearly]
    split
    next => rfl
    next => rfl
    next => rfl
    next attentive hrest =>
      split
      · rfl
      · rw [Option.isSome_map]
        exact hexpired (hmem.resolve_left fun hawake => hawake.2 attentive hrest)

omit [ExecutionStore σ] in
/-- What a run waits for. -/
theorem mem_of_wakesAt? {time : Nat} (h : run.wakesAt? = some time) :
    (∃ call, run.stage = .executing call ∧
        ((time = call.resumesAt ∧ ∀ attentive, call.rest ≠ .hang attentive) ∨
          ∃ ms, call.limit = some (ms, time))) ∨
      (run.isInterruptible = true ∧ time = run.deadlineAt) ∨
      ∃ flight, run.handle.flight = some flight ∧
        time = if flight.outcome.isNone then flight.landsAt else flight.answersAt := by
  have hmem := List.min?_mem h
  simp only [List.mem_append] at hmem
  obtain (hown | hdeadline) | hflight := hmem
  · refine Or.inl ?_
    split at hown
    next call hstage =>
      refine ⟨call, hstage, ?_⟩
      rcases List.mem_append.mp hown with hawake | hlimit
      · split at hawake
        next => cases hawake
        next hrest => exact Or.inl ⟨List.mem_singleton.mp hawake, hrest⟩
      · cases hlimited : call.limit with
        | none => simp [hlimited] at hlimit
        | some limit => exact Or.inr ⟨limit.1, by simp_all⟩
    next => cases hown
  · refine Or.inr (Or.inl ?_)
    split at hdeadline
    next hopen => exact ⟨hopen, List.mem_singleton.mp hdeadline⟩
    next => cases hdeadline
  · refine Or.inr (Or.inr ?_)
    unfold Handle.wakesAt? at hflight
    cases hsome : run.handle.flight with
    | none => simp [hsome] at hflight
    | some flight => exact ⟨flight, rfl, by simpa [hsome] using hflight⟩

/-- A run that is not over goes on at once, or has a time at which it does, whatever happened on the
host by then. -/
theorem Regular.wakes (h : run.Regular) (hopen : run.result? = none) :
    (∀ (scope : Scope) (host : Host σ), (run.next? scope host).isSome = true) ∨
      ∃ time, run.wakesAt? = some time ∧ ∀ (scope : Scope) (host : Host σ), time ≤ host.now →
        (run.next? scope host).isSome = true := by
  have hstands := h.stands
  cases hstage : run.stage with
  | entering =>
      refine Or.inl fun scope host => next?_of_step ?_
      simp only [step?, hstage]
      split <;> rfl
  | dispatching | catchingUp | aborting =>
      exact Or.inl fun scope host => next?_of_step (by simp [step?, hstage])
  | finished result => simp [result?, hstage] at hopen
  | executing call =>
      simp only [hstage] at hstands
      obtain ⟨time, htime⟩ : ∃ time, run.wakesAt? = some time := by
        rw [← Option.isSome_iff_exists]
        simp [wakesAt?, hstage, isInterruptible, List.isSome_min?_iff]
      refine Or.inr ⟨time, htime, fun scope host hpast => ?_⟩
      obtain ⟨other, hother, hgoes⟩ | ⟨hopen, rfl⟩ | ⟨flight, hflight, -⟩ := mem_of_wakesAt? htime
      · obtain rfl : call = other := Stage.executing.inj (hstage.symm.trans hother)
        refine next?_of_step ?_
        simp only [step?, hstage]
        exact goOn?_of_time hgoes hpast
      · exact next?_of_deadline hopen hpast
      · simp [hstands.1] at hflight
  | committing purpose =>
      simp only [hstage] at hstands
      obtain ⟨flight, hflight⟩ := Option.ne_none_iff_exists'.mp hstands
      obtain ⟨time, htime⟩ : ∃ time, run.wakesAt? = some time := by
        rw [← Option.isSome_iff_exists]
        simp [wakesAt?, hstage, Handle.wakesAt?, hflight, List.isSome_min?_iff]
      refine Or.inr ⟨time, htime, fun scope host hpast => ?_⟩
      obtain ⟨call, hother, -⟩ | ⟨hopen, rfl⟩ | ⟨other, hother, rfl⟩ := mem_of_wakesAt? htime
      · cases hstage.symm.trans hother
      · exact next?_of_deadline hopen hpast
      · obtain rfl : flight = other := Option.some.inj (hflight.symm.trans hother)
        refine next?_of_flight hflight hpast fun hanswered => ?_
        obtain ⟨answer, hanswer⟩ := Option.isSome_iff_exists.mp hanswered
        simp only [step?, hstage, settle?, hanswer, Option.bind_eq_bind, Option.bind_some]
        split <;> rfl
  | settling cause =>
      have hidle : ∀ (scope : Scope) (host : Host σ), run.handle.isBusy host.now = false →
          (run.step? scope host).isSome = true := by
        intro scope host hbusy
        simp [step?, hstage, hbusy]
      cases hflight : run.handle.flight with
      | none =>
          exact Or.inl fun scope host =>
            next?_of_step (hidle scope host (by simp [Handle.isBusy, hflight]))
      | some flight =>
          obtain ⟨time, htime⟩ : ∃ time, run.wakesAt? = some time := by
            rw [← Option.isSome_iff_exists]
            simp [wakesAt?, hstage, Handle.wakesAt?, hflight, List.isSome_min?_iff]
          refine Or.inr ⟨time, htime, fun scope host hpast => ?_⟩
          obtain ⟨call, hother, -⟩ | ⟨hopen, rfl⟩ | ⟨other, hother, rfl⟩ := mem_of_wakesAt? htime
          · cases hstage.symm.trans hother
          · exact next?_of_deadline hopen hpast
          · obtain rfl : flight = other := Option.some.inj (hflight.symm.trans hother)
            refine next?_of_flight hflight hpast fun hanswered => hidle scope host ?_
            simp [Handle.isBusy, Option.isNone_eq_false_iff.mpr hanswered]

end Run

end WorkflowEngine
