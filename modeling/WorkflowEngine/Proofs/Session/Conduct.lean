import WorkflowEngine.Proofs.Session.Custody
import WorkflowEngine.Proofs.Session.Record

/-!
How a run stands to the record it writes. Between two commits its working copy is the stored record;
while a commit is on its way, the copy may be ahead of the record by that commit, or the record
ahead of a copy that was interrupted; a run that is given up may stay behind for good, but then its
last commit is refused.

So something about records holds throughout if every commit that takes effect keeps it, where the
commit was asked for by a run whose working copy was the record itself. A `Conduct` lists just that.
-/
namespace WorkflowEngine

/-- What commits keep: of records (`Rest`), of a run between two commits (`Works`) and of one that
is over with a status (`Done`). -/
structure Conduct (Rest : Chronicle → StoredExecution → Prop)
    (Works : Request → Scope → Run → Chronicle → StoredExecution → Prop)
    (Done : Request → Scope → ExecutionStatus → Chronicle → StoredExecution → Prop) : Prop where
  create : ∀ {request header}, header.IsNew request → Rest [.created request] ⟨header, []⟩
  start : ∀ {engine : Engine} {request header cancelled} {σ : Type} {host : Host σ},
    engine.accept request.workflow = .ok () → header.IsNew request →
      Works (.start request) (Call.scopeOf engine request.workflow)
        (Run.start (Call.scopeOf engine request.workflow) (StoredExecution.state ⟨header, []⟩)
          cancelled host).1 [.created request] ⟨header, []⟩
  resume : ∀ {engine : Engine} {request workflow cancelled} {σ : Type} {host : Host σ} {chronicle}
      {execution : StoredExecution},
    Rest chronicle execution → execution.Numbered → execution.state.canResume = true →
      engine.accept workflow = .ok () →
      Works (.resume request) (Call.scopeOf engine workflow)
        (Run.start (Call.scopeOf engine workflow) (execution.stateWith request.input) cancelled
          host).1 chronicle execution
  attend : ∀ {request scope run chronicle execution} (cancelled : Bool),
    Works request scope run chronicle execution →
      Works request scope { run with cancelled } chronicle execution
  skip : ∀ {request scope run chronicle execution nodeId pending},
    Works request scope run chronicle execution → run.stage = .dispatching →
      run.queue = nodeId :: pending →
      (nodeId ∈ run.dispatched ∨
        ∃ node, scope.workflow.node? nodeId = some node ∧ scope.isTrigger node = true) →
      Works request scope { run with queue := pending } chronicle execution
  call : ∀ {request scope run chronicle execution node pending executor call} (earlier : Nat),
    Works request scope run chronicle execution → run.Ready request execution →
      run.stage = .dispatching → run.queue = node.id :: pending → node.id ∉ run.dispatched →
      scope.workflow.node? node.id = some node → scope.isTrigger node = false →
      scope.registry.get? node.nodeType = some executor → call.node = node →
      call.pending = pending →
      call.rest = executor.execute (run.nodeContext scope node earlier) →
      Works request scope { run with queue := pending, stage := .executing call } chronicle
        execution
  unfold : ∀ {request scope run chronicle execution call call' attentive},
    Works request scope run chronicle execution → run.stage = .executing call →
      call'.node = call.node → call'.pending = call.pending →
      call'.rest.answer? = call.rest.answer? →
      Works request scope { run with stage := .executing call', attentive } chronicle execution
  commit : ∀ {request scope run chronicle execution demand} (time : Timestamp),
    Works request scope run chronicle execution → Rest chronicle execution →
      execution.Numbered → run.Ready request execution → 0 < run.deadlineMs →
      run.Demands scope demand →
      ∀ commit, commit = demand.state.commit demand.checkpoint time →
      ∀ later, later = chronicle ++ commit.deeds scope request.input? (.ok ()) →
        Rest later (execution.extend commit) ∧
        (demand.purpose.next = .dispatching →
          Works request scope (run.resumed demand (execution.extend commit)) later
            (execution.extend commit)) ∧
        ∀ status, demand.purpose.next = .finished (.ok status) →
          Done request scope status later (execution.extend commit)
  fail : ∀ {chronicle execution} {header : ExecutionHeader},
    Rest chronicle execution → execution.Numbered → header.id = execution.header.id →
      header.status = .failed → header.checkpointCount = execution.header.checkpointCount →
      (Deed.refused ∈ chronicle ∨ header.context = execution.header.context ∧
        header.currentStep = execution.header.currentStep) →
      Rest chronicle ⟨header, execution.log⟩
  refuse : ∀ {chronicle execution},
    Rest chronicle execution → Rest (chronicle ++ [.refused]) execution

namespace Run

/-- A run that is about to be given up has the record at hand, or its last commit was refused, or it
stays behind. -/
def GivesUp (run : Run) (chronicle : Chronicle) (execution : StoredExecution) : Prop :=
  ∃ cause, run.stage = .aborting cause ∧ run.handle.flight = none ∧
    (run.state.Clean execution ∨
      run.state.Level execution ∧ (Deed.refused ∈ chronicle ∨ isRecorded cause = true) ∨
      run.state.Behind execution)

variable {Rest : Chronicle → StoredExecution → Prop}
  {Works : Request → Scope → Run → Chronicle → StoredExecution → Prop}
  {Done : Request → Scope → ExecutionStatus → Chronicle → StoredExecution → Prop}

/-- A commit that was asked for on the record as it still is. -/
structure Awaits (Works : Request → Scope → Run → Chronicle → StoredExecution → Prop)
    (request : Request) (scope : Scope) (run : Run) (demand : Demand) (commit : Commit)
    (chronicle : Chronicle) (execution : StoredExecution) : Prop where
  asked : run.Ready request execution ∧ Works request scope run chronicle execution ∧
    0 < run.deadlineMs ∨ run.GivesUp chronicle execution
  demands : run.Demands scope demand
  commit_eq : ∃ time, commit = demand.state.commit demand.checkpoint time

/-- How a run stands to its record, by the stage it is in. -/
def Keeps (Works : Request → Scope → Run → Chronicle → StoredExecution → Prop)
    (Done : Request → Scope → ExecutionStatus → Chronicle → StoredExecution → Prop)
    (request : Request) (scope : Scope) (run : Run) (chronicle : Chronicle)
    (execution : StoredExecution) : Prop :=
  match run.stage with
  | .committing purpose =>
    ∃ flight, run.handle.flight = some flight ∧
      match flight.outcome with
      | none => ∃ (before : Run) (demand : Demand),
        before.Awaits Works request scope demand flight.commit chronicle execution ∧
          run = { before with
            handle := ⟨demand.state, some flight⟩
            queue := demand.queue
            dispatched := demand.dispatched
            stage := .committing demand.purpose
            cancelled := run.cancelled }
      | some (.error cause) =>
        (run.state.Level execution ∧
          (Deed.refused ∈ chronicle ∨ isRecorded (.store cause) = true)) ∨
          run.state.Behind execution
      | some (.ok _) =>
        run.state.Behind execution ∧ run.state.committed flight.commit = execution.state ∧
          (purpose.next = .dispatching → execution.header.status = .running ∧
            Works request scope { run with
              handle := ⟨execution.state, none⟩
              queue := run.queue ++ purpose.successors
              stage := .dispatching } chronicle execution) ∧
          ∀ status, purpose.next = .finished (.ok status) →
            Done request scope status chronicle execution
  | .settling _ =>
    (∃ (flight : Flight) (before : Run) (demand : Demand),
      run.handle.flight = some flight ∧ flight.outcome = none ∧
      before.Awaits Works request scope demand flight.commit chronicle execution ∧
      run.state.Clean execution) ∨
    (∀ flight, run.handle.flight = some flight → flight.outcome ≠ none) ∧
      (run.state.Clean execution ∨ run.state.Behind execution)
  | .catchingUp _ stored =>
    run.handle.flight = none ∧ stored = execution.header ∧ run.state.Behind execution
  | .aborting _ => run.GivesUp chronicle execution
  | .finished result =>
    run.handle.flight = none ∧
      ∀ status, result = .ok status → Done request scope status chronicle execution
  | _ => run.Ready request execution ∧ Works request scope run chronicle execution

/-- Only a run between two nodes goes on to another one. -/
theorem Demands.running {scope : Scope} {run : Run} {demand : Demand}
    (h : run.Demands scope demand) (hlegal : run.Legal)
    (hnext : demand.purpose.next = .dispatching) : demand.state.header.status = .running := by
  cases h with
  | entry _ hstate => rw [(ExecutionState.setStatus_ok hstate).2]
  | completion _ _ _ hstage =>
      simp only [Legal, hstage] at hlegal
      exact hlegal
  | conclusion | failure | pause | abandonment => cases hnext

/-- A run that is given up asks for the record of its failure, and nothing else. -/
theorem Demands.abandoned {scope : Scope} {run : Run} {demand : Demand}
    {cause : EngineError} (h : run.Demands scope demand) (hstage : run.stage = .aborting cause) :
    isRecorded cause = false ∧ demand.checkpoint = none ∧
      demand.state.header.status = .failed ∧
      demand.state.header.context = run.state.header.context ∧
      demand.state.header.currentStep = run.state.header.currentStep ∧
      demand.purpose = .abort cause := by
  cases h with
  | abandonment hother hrecorded hstate =>
      cases hstage.symm.trans hother
      rw [(ExecutionState.fail_ok hstate).2]
      exact ⟨hrecorded, rfl, rfl, rfl, rfl, rfl⟩
  | failure _ _ hfails => cases hfails <;> simp_all
  | entry | conclusion | completion | pause => simp_all

private theorem Awaits.level {request : Request} {scope : Scope} {run : Run} {demand : Demand}
    {commit : Commit} {chronicle : Chronicle} {execution : StoredExecution}
    (h : run.Awaits Works request scope demand commit chronicle execution)
    (hversion : execution.header.version = commit.expected) : run.state.Level execution := by
  obtain ⟨hready, -, -⟩ | ⟨cause, -, -, hclean | ⟨hlevel, -⟩ | hbehind⟩ := h.asked
  · exact hready.level.2
  · exact hclean.toLevel
  · exact hlevel
  · obtain ⟨time, rfl⟩ := h.commit_eq
    have hless := (h.demands.behind hbehind).version
    exact absurd hversion (Nat.ne_of_gt hless)

/-- Until its commit takes effect, a run is level with the record, or it stays behind. -/
private theorem Awaits.stands {request : Request} {scope : Scope} {run : Run} {demand : Demand}
    {commit : Commit} {chronicle : Chronicle} {execution : StoredExecution}
    (h : run.Awaits Works request scope demand commit chronicle execution) :
    demand.state.Level execution ∨ demand.state.Behind execution := by
  obtain ⟨hready, -, -⟩ | ⟨_, -, -, hclean | ⟨hlevel, -⟩ | hbehind⟩ := h.asked
  · exact Or.inl (h.demands.level hready.level.2)
  · exact Or.inl (h.demands.level hclean.toLevel)
  · exact Or.inl (h.demands.level hlevel)
  · exact Or.inr (h.demands.behind hbehind)

theorem Awaits.id_eq {request : Request} {scope : Scope} {run : Run} {demand : Demand}
    {commit : Commit} {chronicle : Chronicle} {execution : StoredExecution}
    (h : run.Awaits Works request scope demand commit chronicle execution) :
    commit.header.id = execution.header.id := by
  obtain ⟨time, rfl⟩ := h.commit_eq
  rcases h.stands with hlevel | hbehind
  · exact hlevel.id
  · exact hbehind.id

/-- What a commit keeps when it takes effect. -/
private theorem Awaits.lands (conduct : Conduct Rest Works Done) {request : Request} {scope : Scope}
    {run : Run} {demand : Demand} {commit : Commit} {chronicle : Chronicle}
    {execution : StoredExecution}
    (h : run.Awaits Works request scope demand commit chronicle execution)
    (hnumbered : execution.Numbered) (hrest : Rest chronicle execution)
    (hversion : execution.header.version = commit.expected) :
    (execution.extend commit).Numbered ∧
      demand.state.Behind (execution.extend commit) ∧
      demand.state.committed commit = (execution.extend commit).state ∧
      ∀ later, later = chronicle ++ commit.deeds scope request.input? (.ok ()) →
        Rest later (execution.extend commit) ∧
        (demand.purpose.next = .dispatching →
          (execution.extend commit).header.status = .running ∧
          Works request scope (run.resumed demand (execution.extend commit)) later
            (execution.extend commit)) ∧
        ∀ status, demand.purpose.next = .finished (.ok status) →
          Done request scope status later (execution.extend commit) := by
  have hlevel := h.level hversion
  have hdemands := h.demands
  obtain ⟨time, hcommit⟩ := h.commit_eq
  refine ⟨?_, ?_, ?_, ?_⟩
  · rw [hcommit]
    exact hdemands.numbered hlevel hnumbered time
  · rw [hcommit]
    exact hdemands.behind_extend hlevel hnumbered time
  · unfold ExecutionState.committed StoredExecution.state StoredExecution.extend
      ExecutionState.ofRecord
    rw [(hdemands.level hlevel).log]
  · intro later hlater
    obtain ⟨hready, hworks, hdeadline⟩ | ⟨cause, hstage, hflight, hstands⟩ := h.asked
    · obtain ⟨hafter, hnext, hdone⟩ := conduct.commit time hworks hrest hnumbered hready hdeadline
        hdemands commit hcommit later hlater
      refine ⟨hafter, fun hdispatching => ⟨?_, hnext hdispatching⟩, hdone⟩
      rw [hcommit]
      exact hdemands.running hready.legal hdispatching
    · obtain ⟨hrecorded, hcheckpoint, hstatus, hcontext, hstep, hpurpose⟩ :=
        hdemands.abandoned hstage
      have hextend : execution.extend commit = ⟨commit.header, execution.log⟩ := by
        rw [hcommit, StoredExecution.extend, hcheckpoint]
        simp [ExecutionState.commit]
      have hsame : later = chronicle := by
        rw [hlater, hcommit, Commit.deeds_closing, List.append_nil]
        · change demand.state.header.status ≠ .running
          rw [hstatus]
          simp
        · simp [ExecutionState.commit, hcheckpoint]
      have hcurrent : Deed.refused ∈ chronicle ∨
          commit.header.context = execution.header.context ∧
            commit.header.currentStep = execution.header.currentStep := by
        obtain hclean | ⟨-, hrefused | hknown⟩ | hbehind := hstands
        · rw [hcommit]
          exact Or.inr ⟨hcontext.trans hclean.liveContext, hstep.trans hclean.liveStep⟩
        · exact Or.inl hrefused
        · exact absurd (hknown.symm.trans hrecorded) (by simp)
        · exact absurd hlevel.version (Nat.ne_of_lt hbehind.version)
      have hlevel' := hdemands.level hlevel
      rw [hextend, hsame, hpurpose]
      refine ⟨conduct.fail hrest hnumbered ?_ ?_ ?_ hcurrent, ?_, ?_⟩
      · rw [hcommit]
        exact hlevel'.id
      · rw [hcommit]
        exact hstatus
      · rw [hcommit, hcheckpoint]
        exact hlevel'.count
      · intro hnext
        cases hnext
      · intro status hnext
        cases hnext

theorem Keeps.legal {request : Request} {scope : Scope} {run : Run} {chronicle : Chronicle}
    {execution : StoredExecution}
    (h : run.Keeps Works Done request scope chronicle execution) : run.Legal := by
  cases hstage : run.stage with
  | entering | dispatching | executing =>
      simp only [Keeps, hstage] at h
      exact h.1.legal
  | committing | settling | catchingUp | aborting | finished => simp [Legal, hstage]

private theorem keeps_dispatching {request : Request} {scope : Scope} {run : Run}
    {chronicle : Chronicle} {execution : StoredExecution} (hstage : run.stage = .dispatching)
    (hready : run.Ready request execution) (hworks : Works request scope run chronicle execution) :
    run.Keeps Works Done request scope chronicle execution := by
  simp only [Keeps, hstage]
  exact ⟨hready, hworks⟩

/-- Only a run at work, or about to be given up, asks for a commit. -/
theorem Keeps.asks {request : Request} {scope : Scope} {run : Run} {demand : Demand}
    {chronicle : Chronicle} {execution : StoredExecution}
    (h : run.Keeps Works Done request scope chronicle execution)
    (hdemand : run.Demands scope demand) :
    run.isInterruptible = true ∧ run.Ready request execution ∧
        Works request scope run chronicle execution ∨
      run.GivesUp chronicle execution := by
  have hwork : (run.stage = .entering ∨ run.stage = .dispatching ∨
      ∃ call, run.stage = .executing call) → run.isInterruptible = true ∧
        run.Ready request execution ∧ Works request scope run chronicle execution := by
    rintro (hstage | hstage | ⟨call, hstage⟩) <;> simp only [Keeps, hstage] at h <;>
      exact ⟨by simp [isInterruptible, hstage], h⟩
  cases hdemand with
  | entry hstage => exact Or.inl (hwork (Or.inl hstage))
  | conclusion hstage => exact Or.inl (hwork (Or.inr (Or.inl hstage)))
  | failure _ _ hfails =>
      cases hfails with
      | unknown hstage => exact Or.inl (hwork (Or.inr (Or.inl hstage)))
      | missing hstage => exact Or.inl (hwork (Or.inr (Or.inl hstage)))
      | failed hstage => exact Or.inl (hwork (Or.inr (Or.inr ⟨_, hstage⟩)))
  | completion _ _ _ hstage => exact Or.inl (hwork (Or.inr (Or.inr ⟨_, hstage⟩)))
  | pause _ _ hstage => exact Or.inl (hwork (Or.inr (Or.inr ⟨_, hstage⟩)))
  | abandonment hstage =>
      simp only [Keeps, hstage] at h
      exact Or.inr h

/-- Nothing depends on whether a cancellation was asked for. -/
private theorem Keeps.attend (conduct : Conduct Rest Works Done) {request : Request} {scope : Scope}
    {run : Run} {chronicle : Chronicle} {execution : StoredExecution}
    (h : run.Keeps Works Done request scope chronicle execution) (cancelled : Bool) :
    Keeps Works Done request scope { run with cancelled } chronicle execution := by
  obtain ⟨handle, queue, dispatched, stage, startedAt, deadlineMs, _, attentive⟩ := run
  cases stage with
  | entering | dispatching | executing => exact ⟨h.1, conduct.attend cancelled h.2⟩
  | committing purpose =>
      obtain ⟨flight, hflight, hkeeps⟩ := h
      refine ⟨flight, hflight, ?_⟩
      cases houtcome : flight.outcome with
      | none =>
          simp only [houtcome] at hkeeps ⊢
          obtain ⟨before, demand, hawaits, hrun⟩ := hkeeps
          refine ⟨before, demand, hawaits, ?_⟩
          have hcopy := congrArg (fun run : Run => { run with cancelled }) hrun
          exact hcopy
      | some outcome =>
          cases outcome with
          | error _ =>
              simp only [houtcome] at hkeeps ⊢
              exact hkeeps
          | ok _ =>
              simp only [houtcome] at hkeeps ⊢
              obtain ⟨hbehind, hcommitted, hnext, hdone⟩ := hkeeps
              refine ⟨hbehind, hcommitted, ?_, hdone⟩
              intro hdispatching
              obtain ⟨hrunning, hworks⟩ := hnext hdispatching
              exact ⟨hrunning, conduct.attend cancelled hworks⟩
  | settling | catchingUp | aborting | finished => exact h

section

variable {σ : Type} [ExecutionStore σ] {request : Request} {scope : Scope} {run run' : Run}
  {host host' : Host σ} {chronicle : Chronicle} {execution : StoredExecution}

/-- An interrupted run goes back to the record it last read. -/
private theorem Keeps.interrupt (h : run.Keeps Works Done request scope chronicle execution)
    (hopen : run.isInterruptible = true) (cause : EngineError) :
    Keeps Works Done request scope { (run.withState run.state.discardUncommitted) with
      stage := .settling cause
      cancelled := true
      attentive := 0 } chronicle execution := by
  have hready : run.Ready request execution →
      (∀ flight, run.handle.flight = some flight → flight.outcome ≠ none) ∧
        run.state.discardUncommitted.Clean execution := by
    intro hready
    refine ⟨?_, hready.level.2.discard⟩
    intro flight hflight
    rw [hready.level.1] at hflight
    cases hflight
  cases hstage : run.stage with
  | entering | dispatching | executing =>
      simp only [Keeps, hstage] at h
      obtain ⟨hidle, hclean⟩ := hready h.1
      exact Or.inr ⟨hidle, Or.inl hclean⟩
  | committing purpose =>
      simp only [Keeps, hstage] at h
      obtain ⟨flight, hflight, hkeeps⟩ := h
      cases houtcome : flight.outcome with
      | none =>
          simp only [houtcome] at hkeeps
          obtain ⟨before, demand, hawaits, hrun⟩ := hkeeps
          refine Or.inl ⟨flight, before, demand, hflight, houtcome, hawaits, ?_⟩
          have hstate : run.state = demand.state := by
            rw [hrun]
            rfl
          obtain ⟨hready, -, -⟩ | ⟨other, hother, -⟩ := hawaits.asked
          · change run.state.discardUncommitted.Clean execution
            rw [hstate]
            exact (hawaits.demands.level hready.level.2).discard
          · have hpurpose : run.stage = .committing (.abort other) := by
              rw [hrun]
              exact congrArg Stage.committing (hawaits.demands.abandoned hother).2.2.2.2.2
            simp [isInterruptible, hpurpose] at hopen
      | some outcome =>
          have hidle : ∀ other, run.handle.flight = some other → other.outcome ≠ none := by
            intro other hother
            cases hflight.symm.trans hother
            simp [houtcome]
          cases outcome with
          | error _ =>
              simp only [houtcome] at hkeeps
              obtain ⟨hlevel, -⟩ | hbehind := hkeeps
              · exact Or.inr ⟨hidle, Or.inl hlevel.discard⟩
              · exact Or.inr ⟨hidle, Or.inr hbehind.discard⟩
          | ok _ =>
              simp only [houtcome] at hkeeps
              exact Or.inr ⟨hidle, Or.inr hkeeps.1.discard⟩
  | settling | catchingUp | aborting | finished => simp [isInterruptible, hstage] at hopen

omit [ExecutionStore σ] in
private theorem Keeps.ask (h : run.Keeps Works Done request scope chronicle execution)
    {demand : Demand} {flight : Flight} {time : Timestamp} (hstarted : run.startedAt ≤ host.now)
    (hdemand : run.Demands scope demand)
    (hcommit : flight.commit = demand.state.commit demand.checkpoint time)
    (houtcome : flight.outcome = none)
    (htime : run.isInterruptible = true → host.now < run.deadlineAt) :
    Keeps Works Done request scope { run with
      handle := ⟨demand.state, some flight⟩
      queue := demand.queue
      dispatched := demand.dispatched
      stage := .committing demand.purpose } chronicle execution := by
  refine ⟨flight, rfl, ?_⟩
  simp only [houtcome]
  refine ⟨run, demand, ⟨?_, hdemand, time, hcommit⟩, rfl⟩
  obtain ⟨hopen, hready, hworks⟩ | hgivesUp := h.asks hdemand
  · have hbefore := htime hopen
    have hdeadline : 0 < run.deadlineMs := by
      unfold deadlineAt at hbefore
      omega
    exact Or.inl ⟨hready, hworks, hdeadline⟩
  · exact Or.inr hgivesUp

theorem Keeps.settle (h : run.Keeps Works Done request scope chronicle execution)
    {purpose : Purpose} {flight : Flight} (hstage : run.stage = .committing purpose)
    (hflight : run.handle.flight = some flight) (houtcome : flight.outcome = some (.ok ())) :
    run.state.committed flight.commit = execution.state ∧
      Keeps Works Done request scope { run with
        handle := ⟨run.state.committed flight.commit, none⟩
        queue := run.queue ++ purpose.successors
        stage := purpose.next } chronicle execution := by
  simp only [Keeps, hstage] at h
  obtain ⟨other, hother, hkeeps⟩ := h
  cases hflight.symm.trans hother
  simp only [houtcome] at hkeeps
  obtain ⟨-, hcommitted, hnext, hdone⟩ := hkeeps
  refine ⟨hcommitted, ?_⟩
  rw [hcommitted]
  cases purpose with
  | entry | completion =>
      obtain ⟨hrunning, hworks⟩ := hnext rfl
      exact ⟨⟨rfl, hrunning⟩, hworks⟩
  | pause | conclusion =>
      refine ⟨rfl, ?_⟩
      intro status hstatus
      cases hstatus
      exact hdone _ rfl
  | failure cause =>
      exact ⟨_, rfl, rfl, Or.inl (ExecutionState.clean_state execution)⟩
  | abort cause =>
      refine ⟨rfl, ?_⟩
      intro status hstatus
      cases hstatus

private theorem Keeps.refuse (h : run.Keeps Works Done request scope chronicle execution)
    {purpose : Purpose} {flight : Flight} {cause : StoreError}
    (hstage : run.stage = .committing purpose) (hflight : run.handle.flight = some flight)
    (houtcome : flight.outcome = some (.error cause)) :
    Keeps Works Done request scope { run with
      handle := ⟨run.state, none⟩
      stage := purpose.refused (.store cause) } chronicle execution := by
  simp only [Keeps, hstage] at h
  obtain ⟨other, hother, hkeeps⟩ := h
  cases hflight.symm.trans hother
  simp only [houtcome] at hkeeps
  cases purpose with
  | entry | completion | pause | failure | conclusion =>
      exact ⟨_, rfl, rfl, Or.inr hkeeps⟩
  | abort =>
      refine ⟨rfl, ?_⟩
      intro status hstatus
      cases hstatus

variable [LawfulStore σ]

private theorem Keeps.act (conduct : Conduct Rest Works Done) (hnumbered : execution.Numbered)
    (h : run.Keeps Works Done request scope chronicle execution)
    (hstarted : run.startedAt ≤ host.now)
    (hstored : LawfulStore.stored host.store run.id = some execution)
    (hact : run.Act scope host run') :
    run'.id = run.id ∧ run'.Keeps Works Done request scope chronicle execution := by
  cases hact with
  | interrupt cause hopen => exact ⟨rfl, h.interrupt hopen cause⟩
  | @ask demand flight time hdemand hcommit houtcome htime =>
      refine ⟨?_, h.ask hstarted hdemand hcommit houtcome htime⟩
      obtain ⟨_, _, _, _, hstate⟩ := hdemand.state_eq
      change demand.state.id = run.state.id
      rw [hstate]
      rfl
  | @skip nodeId pending hstage hqueue hpass =>
      simp only [Keeps, hstage] at h
      obtain ⟨hready, hworks⟩ := h
      exact ⟨rfl, keeps_dispatching hstage hready (conduct.skip hworks hstage hqueue hpass)⟩
  | call earlier hstage hqueue hnew hnode htrigger hexecutor hcall hpending hrest =>
      simp only [Keeps, hstage] at h
      obtain ⟨hready, hworks⟩ := h
      refine ⟨rfl, ?_, conduct.call earlier hworks hready hstage hqueue hnew hnode htrigger
        hexecutor hcall hpending hrest⟩
      simp only [Ready, hstage] at hready
      exact hready
  | unfold hstage hnode hpending hrest =>
      simp only [Keeps, hstage] at h
      obtain ⟨hready, hworks⟩ := h
      refine ⟨rfl, ?_, conduct.unfold hworks hstage hnode hpending hrest⟩
      simp only [Ready, hstage] at hready
      exact hready
  | settle hstage hflight houtcome =>
      obtain ⟨hcommitted, hkeeps⟩ := h.settle hstage hflight houtcome
      refine ⟨?_, hkeeps⟩
      have hid : execution.header.id = run.id := LawfulStore.stored_id hstored
      exact (congrArg ExecutionState.id hcommitted).trans hid
  | refuse hstage hflight houtcome => exact ⟨rfl, h.refuse hstage hflight houtcome⟩
  | compare hstage hidle hlevel =>
      refine ⟨rfl, ?_⟩
      simp only [Keeps, hstage] at h
      obtain ⟨flight, _, _, hflight, hopen, -⟩ | ⟨-, hstands⟩ := h
      · exact absurd hopen (hidle flight hflight)
      · refine ⟨_, rfl, rfl, ?_⟩
        rcases hstands with hclean | hbehind
        · exact Or.inl hclean
        · exact Or.inr (Or.inr hbehind)
  | fallBehind hstage hidle hload hbehind =>
      refine ⟨rfl, ?_⟩
      have hfound := LawfulStore.loadHeader_ok hload
      rw [hstored] at hfound
      cases hfound
      simp only [Keeps, hstage] at h
      obtain ⟨flight, _, _, hflight, hopen, -⟩ | ⟨-, hclean | hstands⟩ := h
      · exact absurd hopen (hidle flight hflight)
      · simp [ExecutionState.isBehind, hclean.version] at hbehind
      · exact ⟨rfl, rfl, hstands⟩
  | adopt hstage hload =>
      simp only [Keeps, hstage] at h
      obtain ⟨hflight, rfl, hbehind⟩ := h
      obtain ⟨found, hfound, rfl⟩ := LawfulStore.loadCheckpoints_ok hload
      cases hstored.symm.trans hfound
      have hid : execution.header.id = run.id := LawfulStore.stored_id hstored
      refine ⟨hid, _, rfl, hflight, Or.inl ?_⟩
      have hadopt := hbehind.adopt hnumbered
      change ExecutionState.Clean (run.state.adopt _ _) execution
      rw [hadopt]
      exact ExecutionState.clean_state execution
  | stayBehind hstage =>
      simp only [Keeps, hstage] at h
      obtain ⟨hflight, -, hbehind⟩ := h
      exact ⟨rfl, _, rfl, hflight, Or.inr (Or.inr hbehind)⟩
  | close hstage hclosed =>
      simp only [Keeps, hstage] at h
      obtain ⟨_, -, hflight, -⟩ := h
      refine ⟨rfl, hflight, ?_⟩
      intro status hstatus
      cases hstatus
  | stray hillegal => exact absurd h.legal hillegal

omit [LawfulStore σ] in
private theorem deeds_landed {flight : Flight} (hflight : run.handle.flight = some flight)
    (houtcome : flight.outcome = none) (outcome : Except StoreError Unit) (input : Option Context) :
    run.deeds { run with handle := { run.handle with
        flight := some { flight with outcome := some outcome } } } scope input =
      flight.commit.deeds scope input outcome := by
  simp only [deeds, landing?, hflight, houtcome]

omit [ExecutionStore σ] [LawfulStore σ] in
/-- A commit on its way was asked for by the run, which waits for it or was interrupted. -/
theorem Keeps.flying (h : run.Keeps Works Done request scope chronicle execution)
    {flight : Flight} (hflight : run.handle.flight = some flight)
    (houtcome : flight.outcome = none) :
    ∃ (before : Run) (demand : Demand),
      before.Awaits Works request scope demand flight.commit chronicle execution ∧
        (run = { before with
            handle := ⟨demand.state, some flight⟩
            queue := demand.queue
            dispatched := demand.dispatched
            stage := .committing demand.purpose
            cancelled := run.cancelled } ∨
          ∃ cause, run.stage = .settling cause ∧ run.state.Clean execution) := by
  cases hstage : run.stage with
  | entering | dispatching | executing =>
      simp only [Keeps, hstage] at h
      rw [h.1.level.1] at hflight
      cases hflight
  | committing purpose =>
      simp only [Keeps, hstage] at h
      obtain ⟨other, hother, hkeeps⟩ := h
      cases hflight.symm.trans hother
      simp only [houtcome] at hkeeps
      obtain ⟨before, demand, hawaits, hrun⟩ := hkeeps
      exact ⟨before, demand, hawaits, Or.inl hrun⟩
  | settling cause =>
      simp only [Keeps, hstage] at h
      obtain ⟨other, before, demand, hother, -, hawaits, hclean⟩ | ⟨hidle, -⟩ := h
      · cases hflight.symm.trans hother
        exact ⟨before, demand, hawaits, Or.inr ⟨cause, rfl, hclean⟩⟩
      · exact absurd houtcome (hidle flight hflight)
  | catchingUp | finished =>
      simp only [Keeps, hstage] at h
      rw [h.1] at hflight
      cases hflight
  | aborting =>
      simp only [Keeps, hstage] at h
      obtain ⟨_, -, hnone, -⟩ := h
      rw [hnone] at hflight
      cases hflight

omit [ExecutionStore σ] [LawfulStore σ] in
/-- An interrupted run only looks whether its commit is still on its way. -/
private theorem keeps_settling {cause : EngineError} {flight : Flight}
    (hstage : run.stage = .settling cause) (hflight : run.handle.flight = some flight)
    (houtcome : flight.outcome ≠ none)
    (hstands : run.state.Clean execution ∨ run.state.Behind execution) :
    run.Keeps Works Done request scope chronicle execution := by
  simp only [Keeps, hstage]
  refine Or.inr ⟨?_, hstands⟩
  intro other hother
  cases hflight.symm.trans hother
  exact houtcome

/-- The store refused a commit, and is left as it was. -/
private theorem Keeps.land_error (conduct : Conduct Rest Works Done)
    (hrest : Rest chronicle execution)
    (h : run.Keeps Works Done request scope chronicle execution)
    {flight : Flight} (hflight : run.handle.flight = some flight)
    (houtcome : flight.outcome = none) (cause : StoreError) :
    Rest (chronicle ++ flight.commit.deeds scope request.input? (.error cause)) execution ∧
      Keeps Works Done request scope { run with handle := { run.handle with
          flight := some { flight with outcome := some (.error cause) } } }
        (chronicle ++ flight.commit.deeds scope request.input? (.error cause)) execution := by
  have hdeeds : Rest (chronicle ++ flight.commit.deeds scope request.input? (.error cause))
        execution ∧
      (Deed.refused ∈ chronicle ++ flight.commit.deeds scope request.input? (.error cause) ∨
        isRecorded (.store cause) = true) := by
    cases cause with
    | conflict =>
        simp only [Commit.deeds, List.append_nil]
        exact ⟨hrest, Or.inr rfl⟩
    | _ => exact ⟨conduct.refuse hrest, Or.inl (by simp [Commit.deeds])⟩
  refine ⟨hdeeds.1, ?_⟩
  obtain ⟨before, demand, hawaits, hrun | ⟨settled, hstage, hclean⟩⟩ := h.flying hflight houtcome
  · rw [hrun]
    refine ⟨_, rfl, ?_⟩
    rcases hawaits.stands with hlevel | hbehind
    · exact Or.inl ⟨hlevel, hdeeds.2⟩
    · exact Or.inr hbehind
  · exact keeps_settling hstage rfl (by simp) (Or.inl hclean)

/-- The store accepted a commit. -/
private theorem Keeps.land_ok (conduct : Conduct Rest Works Done)
    (hnumbered : execution.Numbered) (hrest : Rest chronicle execution)
    (h : run.Keeps Works Done request scope chronicle execution)
    {flight : Flight} (hflight : run.handle.flight = some flight)
    (houtcome : flight.outcome = none)
    (hversion : execution.header.version = flight.commit.expected) :
    (execution.extend flight.commit).Numbered ∧
      Rest (chronicle ++ flight.commit.deeds scope request.input? (.ok ()))
        (execution.extend flight.commit) ∧
      Keeps Works Done request scope { run with handle := { run.handle with
          flight := some { flight with outcome := some (.ok ()) } } }
        (chronicle ++ flight.commit.deeds scope request.input? (.ok ()))
        (execution.extend flight.commit) := by
  obtain ⟨before, demand, hawaits, hstands⟩ := h.flying hflight houtcome
  obtain ⟨hnumbered', hbehind, hcommitted, hlater⟩ :=
    hawaits.lands conduct hnumbered hrest hversion
  obtain ⟨hrest', hnext, hdone⟩ := hlater _ rfl
  refine ⟨hnumbered', hrest', ?_⟩
  -- The run waits for the commit, or was interrupted since and is now behind the record.
  obtain hrun | ⟨settled, hstage, hclean⟩ := hstands
  · rw [hrun]
    refine ⟨_, rfl, hbehind, hcommitted, ?_, hdone⟩
    intro hdispatching
    obtain ⟨hrunning, hworks⟩ := hnext hdispatching
    exact ⟨hrunning, conduct.attend run.cancelled hworks⟩
  · refine keeps_settling hstage rfl (by simp) (Or.inr ?_)
    refine ⟨?_, ?_, ?_, ?_⟩
    · exact hclean.id.trans hawaits.id_eq.symm
    · change run.state.header.version < flight.commit.header.version
      obtain ⟨time, hcommit⟩ := hawaits.commit_eq
      have hbefore : execution.header.version = demand.state.header.version := by
        rw [hversion, hcommit]
        rfl
      rw [hclean.version, hbefore, hcommit]
      exact Nat.lt_succ_self _
    · change run.state.header.checkpointCount = run.state.checkpoints.length
      rw [hclean.count, hclean.log]
      exact hnumbered.count
    · change run.state.checkpoints <+: execution.log ++ flight.commit.appended
      rw [hclean.log]
      exact List.prefix_append _ _

private theorem Keeps.land (conduct : Conduct Rest Works Done) (hnumbered : execution.Numbered)
    (hrest : Rest chronicle execution)
    (h : run.Keeps Works Done request scope chronicle execution)
    (hstored : LawfulStore.stored host.store run.id = some execution)
    (hlands : run.Lands host run' host') :
    run'.id = run.id ∧ ∃ after,
      LawfulStore.stored host'.store =
        Function.update (LawfulStore.stored host.store) run.id (some after) ∧
      after.Numbered ∧ Rest (chronicle ++ run.deeds run' scope request.input?) after ∧
      run'.Keeps Works Done request scope (chronicle ++ run.deeds run' scope request.input?)
        after := by
  obtain ⟨hflight, houtcome, hstore⟩ := hlands
  rename_i flight
  refine ⟨rfl, ?_⟩
  rw [deeds_landed hflight houtcome, hstore]
  cases hresult : (ExecutionStore.commit host.store flight.commit).1 with
  | error cause =>
      obtain ⟨hrest', hkeeps⟩ := h.land_error conduct hrest hflight houtcome cause
      refine ⟨execution, ?_, hnumbered, hrest', hkeeps⟩
      rw [LawfulStore.commit_error hresult, ← hstored, Function.update_eq_self]
  | ok _ =>
      obtain ⟨found, hfound, hversion, hafter⟩ := LawfulStore.commit_ok hresult
      obtain ⟨before, demand, hawaits, -⟩ := h.flying hflight houtcome
      have hid : flight.commit.header.id = run.id :=
        hawaits.id_eq.trans (LawfulStore.stored_id hstored)
      rw [hid, hstored] at hfound
      cases hfound
      obtain ⟨hnumbered', hrest', hkeeps⟩ :=
        h.land_ok conduct hnumbered hrest hflight houtcome hversion
      refine ⟨execution.extend flight.commit, ?_, hnumbered', hrest', hkeeps⟩
      rw [hafter, hid]
      rfl

/-- A store that may only be slow accepts a commit or finds that the record moved on. -/
private theorem Keeps.deeds_reliable (h : run.Keeps Works Done request scope chronicle execution)
    (hreliable : LawfulStore.Reliable host.store)
    (hstored : LawfulStore.stored host.store run.id = some execution)
    (hlands : run.Lands host run' host') :
    Deed.refused ∉ run.deeds run' scope request.input? := by
  obtain ⟨hflight, houtcome, -⟩ := hlands
  rename_i flight
  rw [deeds_landed hflight houtcome]
  obtain ⟨before, demand, hawaits, -⟩ := h.flying hflight houtcome
  have hid : flight.commit.header.id = run.id :=
    hawaits.id_eq.trans (LawfulStore.stored_id hstored)
  have hcommit := LawfulStore.commit_of_reliable hreliable (hid ▸ hstored)
  rw [hcommit]
  unfold ExecutionHeader.checkVersion
  by_cases hversion : execution.header.version = flight.commit.expected
  · simp only [hversion, if_true, Commit.deeds]
    split <;> simp
  · simp [hversion, Commit.deeds]

end

end Run

namespace Conduct

variable {σ : Type} [ExecutionStore σ] [LawfulStore σ] {Kind : σ → Prop}
  {Rest : Chronicle → StoredExecution → Prop}
  {Works : Request → Scope → Run → Chronicle → StoredExecution → Prop}
  {Done : Request → Scope → ExecutionStatus → Chronicle → StoredExecution → Prop}

/-- What commits keep is kept in any store. -/
theorem custody (conduct : Conduct Rest Works Done)
    (hinsert : ∀ {store header}, Kind store → Kind (ExecutionStore.insert store header).2)
    (hcommit : ∀ {store commit}, Kind store → Kind (ExecutionStore.commit store commit).2) :
    Custody Kind (fun chronicle execution => execution.Numbered ∧ Rest chronicle execution)
      fun request scope run chronicle execution => execution.Numbered ∧
        Rest chronicle execution ∧ run.Keeps Works Done request scope chronicle execution where
  kind_insert := hinsert
  kind_commit := hcommit
  create := by
    intro request header hnew
    refine ⟨?_, conduct.create hnew⟩
    obtain ⟨_, _, _, rfl⟩ := hnew
    exact ⟨rfl, rfl⟩
  start := by
    intro engine request header cancelled host haccept hnew
    refine ⟨?_, conduct.create hnew, ?_, conduct.start haccept hnew⟩
    · obtain ⟨_, _, _, rfl⟩ := hnew
      exact ⟨rfl, rfl⟩
    · obtain ⟨_, _, _, rfl⟩ := hnew
      exact ⟨rfl, rfl⟩
  resume := by
    rintro engine request workflow state cancelled host chronicle execution ⟨hnumbered, hrest⟩
      hprepare
    rw [hnumbered.assemble] at hprepare
    obtain ⟨hresume, -, haccept, rfl⟩ := Call.prepareResume_cases hprepare
    exact ⟨hnumbered, hrest, ⟨rfl, ExecutionState.canBecome_of_canResume hresume⟩,
      conduct.resume hrest hnumbered hresume haccept⟩
  attend := by
    rintro request scope run chronicle execution cancelled ⟨hnumbered, hrest, hkeeps⟩
    exact ⟨hnumbered, hrest, hkeeps.attend conduct cancelled⟩
  legal h := h.2.2.legal
  act := by
    rintro request scope run run' host chronicle execution ⟨hnumbered, hrest, hkeeps⟩ - hstarted
      hstored hact
    obtain ⟨hid, hkeeps'⟩ := hkeeps.act conduct hnumbered hstarted hstored hact
    exact ⟨hid, hnumbered, hrest, hkeeps'⟩
  land := by
    rintro request scope run run' host host' chronicle execution ⟨hnumbered, hrest, hkeeps⟩ -
      hstored hlands
    obtain ⟨hid, after, hafter, hnumbered', hrest', hkeeps'⟩ :=
      hkeeps.land conduct hnumbered hrest hstored hlands
    exact ⟨hid, after, hafter, hnumbered', hrest', hkeeps'⟩
  finish h _ := ⟨h.1, h.2.1⟩

/-- On a store that may only be slow no commit is refused but for another writer. -/
theorem reliable (conduct : Conduct Rest Works Done) :
    Custody (LawfulStore.Reliable (σ := σ))
      (fun chronicle execution => execution.Numbered ∧ Rest chronicle execution ∧
        Deed.refused ∉ chronicle)
      fun request scope run chronicle execution => execution.Numbered ∧
        Rest chronicle execution ∧ run.Keeps Works Done request scope chronicle execution ∧
        Deed.refused ∉ chronicle := by
  have base : Custody (LawfulStore.Reliable (σ := σ)) _ _ :=
    conduct.custody LawfulStore.reliable_insert LawfulStore.reliable_commit
  refine ⟨base.kind_insert, base.kind_commit, ?_, ?_, ?_, ?_, ?_, ?_, ?_, ?_⟩
  · intro request header hnew
    obtain ⟨hnumbered, hrest⟩ := base.create hnew
    exact ⟨hnumbered, hrest, by simp⟩
  · intro engine request header cancelled host haccept hnew
    obtain ⟨hnumbered, hrest, hkeeps⟩ := base.start haccept hnew
    exact ⟨hnumbered, hrest, hkeeps, by simp⟩
  · rintro engine request workflow state cancelled host chronicle execution
      ⟨hnumbered, hrest, hclear⟩ hprepare
    obtain ⟨-, -, hkeeps⟩ := base.resume ⟨hnumbered, hrest⟩ hprepare
    exact ⟨hnumbered, hrest, hkeeps, hclear⟩
  · rintro request scope run chronicle execution cancelled ⟨hnumbered, hrest, hkeeps, hclear⟩
    exact ⟨hnumbered, hrest, hkeeps.attend conduct cancelled, hclear⟩
  · intro request scope run chronicle execution h
    exact h.2.2.1.legal
  · rintro request scope run run' host chronicle execution ⟨hnumbered, hrest, hkeeps, hclear⟩ -
      hstarted hstored hact
    obtain ⟨hid, hkeeps'⟩ := hkeeps.act conduct hnumbered hstarted hstored hact
    exact ⟨hid, hnumbered, hrest, hkeeps', hclear⟩
  · rintro request scope run run' host host' chronicle execution
      ⟨hnumbered, hrest, hkeeps, hclear⟩ hreliable hstored hlands
    obtain ⟨hid, after, hafter, hnumbered', hrest', hkeeps'⟩ :=
      hkeeps.land conduct hnumbered hrest hstored hlands
    refine ⟨hid, after, hafter, hnumbered', hrest', hkeeps', ?_⟩
    have hdeeds := hkeeps.deeds_reliable hreliable hstored hlands
    exact fun hrefused => (List.mem_append.mp hrefused).elim hclear hdeeds
  · intro request scope run chronicle execution result h _
    exact ⟨h.1, h.2.1, h.2.2.2⟩

end Conduct

end WorkflowEngine
