import WorkflowEngine.Proofs.Session.Conduct

/-!
What a call tells of its run, against what is stored. On a store that is only slow the two agree, with
one exception: a run that is interrupted while its completion is on its way finds the execution
completed, which is final, and still tells of a failure.

Calls that are refused before their run begins tell nothing of an execution and are not covered.
-/
namespace WorkflowEngine

/-- What is told of a run is what is stored. -/
structure RunResult.Agrees (result : RunResult) (header : ExecutionHeader) : Prop where
  settled : header.status = .completed ∨ header.status = .paused ∨ header.status = .failed
  status : result.status = header.status
  output : result.output = header.context
  success : result.success = true ↔ header.status ≠ .failed
  error : result.error.isSome = true ↔ result.success = false

/-- The execution is completed, and the interruption that came too late is told as its failure. -/
structure RunResult.Belated (result : RunResult) (header : ExecutionHeader) : Prop where
  completed : header.status = .completed
  status : result.status = .completed
  output : result.output = header.context
  failure : result.success = false
  error : ∃ cause : EngineError, cause.isInterruption = true ∧ result.error = some cause.message

/-- The record of a run that ended by itself with a status. -/
def StoredExecution.LeftAs (execution : StoredExecution) (status : ExecutionStatus) : Prop :=
  execution.header.status = status ∧ (status = .paused ∨ status = .completed)

theorem agreement_conduct :
    Conduct (fun _ _ => True) (fun _ _ _ _ _ => True)
      fun _ _ status _ execution => execution.LeftAs status where
  create _ := trivial
  start _ _ := trivial
  resume _ _ _ _ := trivial
  attend _ _ := trivial
  skip _ _ _ _ := trivial
  call _ _ _ _ _ _ _ _ _ _ _ _ := trivial
  unfold _ _ _ _ _ := trivial
  commit := by
    rintro request scope run chronicle execution demand time - - - hready - hdemand commit hcommit
      later -
    refine ⟨trivial, fun _ => trivial, ?_⟩
    intro status hnext
    have hmakes := hdemand.makes hready time hcommit
    cases hmakes with
    | opening | failing => cases hnext
    | closing _ _ _ hstatus =>
        cases hnext
        exact ⟨hstatus, Or.inr rfl⟩
    | answering _ _ hpurpose _ hstatus =>
        rcases hpurpose with ⟨hpause, rfl⟩ | ⟨-, _, rfl⟩
        · cases hnext
          rw [hpause] at hstatus
          exact ⟨hstatus, Or.inl rfl⟩
        · cases hnext
  fail _ _ _ _ _ _ := trivial
  refuse _ := trivial

/-- Who can no longer fail has completed. -/
theorem ExecutionStatus.eq_completed {status : ExecutionStatus}
    (h : status.canBecome .failed = false) : status = .completed := by
  cases status <;> first | rfl | cases h

namespace Run

/-- Is a commit for this the record of a failure? -/
def Purpose.isFailure : Purpose → Bool
  | .failure _ => true
  | .abort _ => true
  | _ => false

theorem Demands.failed {scope : Scope} {run : Run} {demand : Demand}
    (h : run.Demands scope demand) (hfailure : demand.purpose.isFailure = true) :
    demand.state.header.status = .failed := by
  cases h with
  | failure _ _ _ hstate => rw [(ExecutionState.fail_ok hstate).2]
  | abandonment _ _ hstate => rw [(ExecutionState.fail_ok hstate).2]
  | entry | conclusion | completion | pause => cases hfailure

/-- How a run that is on its way out accounts for what is stored: it was interrupted, or its failure
is recorded. -/
def Accounts (run : Run) (execution : StoredExecution) : Prop :=
  match run.stage with
  | .committing purpose =>
    purpose.isFailure = true →
      ∀ flight, run.handle.flight = some flight → flight.commit.header.status = .failed
  | .settling cause =>
    cause.isInterruption = true ∧
      ((∀ flight, run.handle.flight = some flight → flight.outcome ≠ none) →
        run.state = execution.state ∨ run.state.header.version < execution.header.version)
  | .catchingUp cause _ => cause.isInterruption = true
  | .aborting cause =>
    run.state = execution.state ∧
      (cause.isInterruption = true ∨
        isRecorded cause = true ∧ execution.header.status = .failed)
  | .finished result =>
    run.state = execution.state ∧ ∀ cause, result = .error cause →
      execution.header.status = .failed ∨
        execution.header.status = .completed ∧ cause.isInterruption = true
  | _ => True

/-- Every commit that a run asked for fits the record, and is accepted. -/
structure Faithful (run : Run) (execution : StoredExecution) : Prop where
  fits : ∀ flight, run.handle.flight = some flight → flight.outcome = none →
    flight.commit.Fits execution
  accepted : ∀ flight cause, run.handle.flight = some flight →
    flight.outcome ≠ some (.error cause)
  accounts : run.Accounts execution

theorem faithful_idle {run : Run} {execution : StoredExecution} (h : run.handle.flight = none)
    (haccounts : run.Accounts execution) : run.Faithful execution := by
  refine ⟨?_, ?_, haccounts⟩
  · intro flight hflight
    rw [h] at hflight
    cases hflight
  · intro flight cause hflight
    rw [h] at hflight
    cases hflight

/-- What a run at work drops when it is interrupted leaves the record. -/
theorem Ready.discard {request : Request} {run : Run} {execution : StoredExecution}
    (h : run.Ready request execution) : run.state.discardUncommitted = execution.state := by
  cases hstage : run.stage with
  | entering =>
      rw [h.entering hstage]
      exact ExecutionState.discard_stateWith execution request.input?
  | dispatching =>
      rw [h.dispatching hstage]
      rfl
  | executing call =>
      rw [h.executing hstage]
      rfl
  | committing | settling | catchingUp | aborting | finished => simp [Ready, hstage] at h

namespace Faithful

section

variable {Rest : Chronicle → StoredExecution → Prop}
  {Works : Request → Scope → Run → Chronicle → StoredExecution → Prop}
  {Done : Request → Scope → ExecutionStatus → Chronicle → StoredExecution → Prop}
  {σ : Type} [ExecutionStore σ] {request : Request} {scope : Scope} {run run' : Run}
  {host host' : Host σ} {chronicle : Chronicle} {execution : StoredExecution}

private theorem interrupt (h : run.Faithful execution)
    (hkeeps : run.Keeps Works Done request scope chronicle execution)
    (hopen : run.isInterruptible = true) {cause : EngineError}
    (hcause : cause.isInterruption = true) :
    Faithful { (run.withState run.state.discardUncommitted) with
      stage := .settling cause
      cancelled := true
      attentive := 0 } execution := by
  refine ⟨h.fits, h.accepted, hcause, ?_⟩
  intro hidle
  cases hstage : run.stage with
  | entering | dispatching | executing =>
      simp only [Keeps, hstage] at hkeeps
      exact Or.inl hkeeps.1.discard
  | committing purpose =>
      simp only [Keeps, hstage] at hkeeps
      obtain ⟨flight, hflight, hkeeps⟩ := hkeeps
      rcases houtcome : flight.outcome with _ | outcome
      · exact absurd houtcome (hidle flight hflight)
      · cases outcome with
        | error cause => exact absurd houtcome (h.accepted flight cause hflight)
        | ok _ =>
            simp only [houtcome] at hkeeps
            exact Or.inr hkeeps.1.version
  | settling | catchingUp | aborting | finished => simp [isInterruptible, hstage] at hopen

/-- Who asks for a commit has the record at hand. -/
private theorem level (h : run.Faithful execution)
    (hkeeps : run.Keeps Works Done request scope chronicle execution) {demand : Demand}
    (hdemand : run.Demands scope demand) : run.state.Level execution := by
  obtain ⟨-, hready, -⟩ | ⟨cause, hstage, -⟩ := hkeeps.asks hdemand
  · exact hready.level.2
  · have haccounts := h.accounts
    simp only [Accounts, hstage] at haccounts
    rw [haccounts.1]
    exact (ExecutionState.clean_state execution).toLevel

private theorem ask (h : run.Faithful execution)
    (hkeeps : run.Keeps Works Done request scope chronicle execution) {demand : Demand}
    {flight : Flight} {time : Timestamp} (hdemand : run.Demands scope demand)
    (hcommit : flight.commit = demand.state.commit demand.checkpoint time)
    (houtcome : flight.outcome = none) :
    Faithful { run with
      handle := ⟨demand.state, some flight⟩
      queue := demand.queue
      dispatched := demand.dispatched
      stage := .committing demand.purpose } execution := by
  refine ⟨?_, ?_, ?_⟩
  · intro other hother _
    cases hother
    rw [hcommit]
    exact (hdemand.level (h.level hkeeps hdemand)).fits _ _
  · intro other cause hother
    cases hother
    simp [houtcome]
  · intro hfailure other hother
    cases hother
    rw [hcommit]
    exact hdemand.failed hfailure

private theorem settle (h : run.Faithful execution) {flight : Flight}
    (hcommitted : run.state.committed flight.commit = execution.state) {purpose : Purpose}
    (hstage : run.stage = .committing purpose) (hflight : run.handle.flight = some flight) :
    Faithful { run with
      handle := ⟨run.state.committed flight.commit, none⟩
      queue := run.queue ++ purpose.successors
      stage := purpose.next } execution := by
  have hheader : flight.commit.header = execution.header := congrArg (·.header) hcommitted
  have hfailed : purpose.isFailure = true → execution.header.status = .failed := by
    intro hfailure
    have haccounts := h.accounts
    simp only [Accounts, hstage] at haccounts
    rw [← hheader]
    exact haccounts hfailure flight hflight
  apply faithful_idle rfl
  cases purpose with
  | entry | completion => exact trivial
  | pause | conclusion =>
      refine ⟨hcommitted, ?_⟩
      intro cause hcause
      cases hcause
  | failure => exact ⟨hcommitted, Or.inr ⟨rfl, hfailed rfl⟩⟩
  | abort => exact ⟨hcommitted, fun _ _ => Or.inl (hfailed rfl)⟩

variable [LawfulStore σ] [ReadableStore σ]

private theorem act (h : run.Faithful execution) (hnumbered : execution.Numbered)
    (hkeeps : run.Keeps Works Done request scope chronicle execution) (hsteady : Steady host.store)
    (hstored : LawfulStore.stored host.store run.id = some execution)
    (hact : run.Act scope host run') : run'.Faithful execution := by
  have hidle : run.Ready request execution → run.handle.flight = none := fun hready =>
    hready.level.1
  have hload : ExecutionStore.loadHeader host.store run.id = .ok (some execution.header) := by
    rw [ReadableStore.loadHeader_of_readable run.id hsteady.2, hstored]
    rfl
  cases hact with
  | interrupt cause hopen hcause => exact h.interrupt hkeeps hopen hcause
  | ask time hdemand hcommit houtcome => exact h.ask hkeeps hdemand hcommit houtcome
  | skip hstage | call _ hstage | unfold hstage =>
      simp only [Keeps, hstage] at hkeeps
      apply faithful_idle
      · exact hidle hkeeps.1
      · simp only [Accounts, hstage]
  | settle hstage hflight houtcome =>
      have hcommitted := (hkeeps.settle hstage hflight houtcome).1
      exact h.settle hcommitted hstage hflight
  | refuse hstage hflight houtcome => exact absurd houtcome (h.accepted _ _ hflight)
  | compare hstage hsettled hlevel =>
      have haccounts := h.accounts
      simp only [Accounts, hstage] at haccounts
      obtain ⟨hcause, hstands⟩ := haccounts
      apply faithful_idle rfl
      refine ⟨?_, Or.inl hcause⟩
      rcases hstands hsettled with hsame | hless
      · exact hsame
      · have hnot := hlevel _ hload
        simp only [ExecutionState.isBehind, decide_eq_false_iff_not] at hnot
        exact absurd hless hnot
  | fallBehind hstage hsettled hfound hbehind =>
      have haccounts := h.accounts
      simp only [Accounts, hstage] at haccounts
      exact faithful_idle rfl haccounts.1
  | adopt hstage hfound =>
      have haccounts := h.accounts
      simp only [Accounts, hstage] at haccounts
      simp only [Keeps, hstage] at hkeeps
      obtain ⟨hflight, rfl, hbehind⟩ := hkeeps
      obtain ⟨found, hexecution, rfl⟩ := LawfulStore.loadCheckpoints_ok hfound
      cases hstored.symm.trans hexecution
      apply faithful_idle
      · exact hflight
      · exact ⟨hbehind.adopt hnumbered, Or.inl haccounts⟩
  | stayBehind hstage hunread =>
      have hlog := ReadableStore.loadCheckpoints_of_readable
        run.state.header.checkpointCount hsteady.2 hstored
      exact absurd hlog (hunread _)
  | close hstage hclosed =>
      have haccounts := h.accounts
      simp only [Accounts, hstage] at haccounts
      obtain ⟨hsame, hcause⟩ := haccounts
      simp only [Keeps, hstage] at hkeeps
      obtain ⟨_, -, hflight, -⟩ := hkeeps
      refine faithful_idle ?_ ⟨hsame, ?_⟩
      · exact hflight
      · rintro cause ⟨⟩
        rcases hcause with hinterrupted | ⟨-, hfailed⟩
        · refine Or.inr ⟨?_, hinterrupted⟩
          rcases hclosed with hrecorded | hfinal
          · rw [not_recorded hinterrupted] at hrecorded
            cases hrecorded
          · rw [hsame] at hfinal
            exact ExecutionStatus.eq_completed hfinal
        · exact Or.inl hfailed
  | stray hillegal => exact absurd hkeeps.legal hillegal

private theorem land (h : run.Faithful execution)
    (hkeeps : run.Keeps Works Done request scope chronicle execution) (hsteady : Steady host.store)
    (hstored : LawfulStore.stored host.store run.id = some execution)
    (hlands : run.Lands host run' host') {after : StoredExecution}
    (hafter : LawfulStore.stored host'.store run.id = some after) : run'.Faithful after := by
  obtain ⟨hflight, houtcome, hstore⟩ := hlands
  rename_i flight
  have hfits := h.fits flight hflight houtcome
  obtain ⟨hresult, hlanded⟩ := hfits.accepted (mended_of_reliable hsteady.1) hstored
  rw [hstore, hlanded, Function.update_self] at hafter
  cases hafter
  refine ⟨?_, ?_, ?_⟩
  · intro other hother hopen
    cases hother
    cases hopen
  · intro other cause hother
    cases hother
    simp [hresult]
  · have haccounts := h.accounts
    obtain ⟨before, demand, -, hrun | ⟨cause, hstage, hclean⟩⟩ := hkeeps.flying hflight houtcome
    · have hstage : run.stage = .committing demand.purpose := by rw [hrun]
      simp only [Accounts, hstage] at haccounts ⊢
      intro hfailure other hother
      cases hother
      exact haccounts hfailure flight hflight
    · simp only [Accounts, hstage] at haccounts ⊢
      refine ⟨haccounts.1, fun _ => Or.inr ?_⟩
      change run.state.header.version < flight.commit.header.version
      have hversion := hfits.version
      have hlevel := hclean.version
      omega

end

end Faithful

end Run

variable {σ : Type} [ExecutionStore σ] [LawfulStore σ] [ReadableStore σ]

/-- What a run on a steady store keeps. -/
theorem agreement_custody :
    Custody (Steady (σ := σ))
      (fun _ execution => execution.Numbered ∧ True)
      fun request scope run chronicle execution =>
        (execution.Numbered ∧ True ∧ run.Keeps (fun _ _ _ _ _ => True)
          (fun _ _ status _ execution => execution.LeftAs status) request scope chronicle
          execution) ∧ run.Faithful execution :=
  (agreement_conduct.custody Steady.insert Steady.commit).also
    (fun _ _ run execution => run.Faithful execution)
    (by
      intro request scope run execution hstage hflight
      apply Run.faithful_idle hflight
      simp only [Run.Accounts, hstage])
    (fun cancelled h => ⟨h.fits, h.accepted, h.accounts⟩)
    (fun ⟨hnumbered, _, hkeeps⟩ h hsteady hstored hact =>
      h.act hnumbered hkeeps hsteady hstored hact)
    (fun ⟨_, _, hkeeps⟩ h hsteady hstored hlands hafter =>
      h.land hkeeps hsteady hstored hlands hafter)

namespace Session

/-- Whatever a call tells of its run is what it leaves in the store, unless the run was interrupted
with its completion on the way. -/
theorem Reachable.result_agrees {session : Session σ} (h : Reachable Steady session) {task : Task}
    (htask : task ∈ session.tasks) {result : RunResult} {engine : Engine} {host : Host σ}
    (hreturn : task.call.next? session.engine session.host =
      some (.ended (.ok result), engine, host)) :
    ∃ execution, LawfulStore.stored host.store result.executionId = some execution ∧
      (result.Agrees execution.header ∨ result.Belated execution.header) := by
  obtain ⟨rfl, scope, run, outcome, hcall, hstage, rfl⟩ := Call.returned hreturn
  obtain ⟨execution, hstored, ⟨-, -, hkeeps⟩, hfaithful⟩ :=
    (h.orderly agreement_custody).driven htask hcall
  have haccounts := hfaithful.accounts
  simp only [Run.Accounts, hstage] at haccounts
  obtain ⟨hsame, hfailure⟩ := haccounts
  have hstatus : run.state.status = execution.header.status := congrArg (·.header.status) hsame
  have houtput : run.state.context = execution.header.context := congrArg (·.header.context) hsame
  refine ⟨execution, ?_, ?_⟩
  · cases outcome <;> exact hstored
  · cases outcome with
    | ok status =>
        simp only [Run.Keeps, hstage] at hkeeps
        obtain ⟨hdone, hend⟩ := hkeeps.2 status rfl
        refine Or.inl ⟨?_, hdone.symm, houtput, ?_, ?_⟩
        · rw [hdone]
          rcases hend with rfl | rfl <;> simp
        · rw [hdone]
          simp [RunResult.ofRun]
        · rcases hend with rfl | rfl <;> simp [RunResult.ofRun]
    | error cause =>
        rcases hfailure cause rfl with hfailed | ⟨hcompleted, hinterrupted⟩
        · refine Or.inl ⟨Or.inr (Or.inr hfailed), hstatus, houtput, ?_, ?_⟩
          · simp [RunResult.ofRun, hfailed]
          · simp [RunResult.ofRun]
        · exact Or.inr ⟨hcompleted, hstatus.trans hcompleted, houtput, rfl, cause, hinterrupted, rfl⟩

/-- The deadline passes while the first checkpoint is on its way. -/
theorem Reachable.result_agrees_of_timeout :
    let late := ((Sample.session { slowWrite := [(2, 40000)] }).ask
      (Sample.start Sample.gated)).play 16
    ∃ result, late.result? = some result ∧ result.status = .failed ∧
      ∃ execution, late.stored result.executionId = some execution ∧
        result.Agrees execution.header := by
  intro late
  have hlate : Reachable Steady late :=
    Sample.reachable_start ⟨⟨rfl, rfl, trivial⟩, rfl, trivial⟩ Sample.gated 16
  have htold : late.result?.map (·.status) = some .failed := by decide
  obtain ⟨result, hresult, hfailed⟩ := Option.map_eq_some_iff.mp htold
  refine ⟨result, hresult, hfailed, ?_⟩
  obtain ⟨task, htask, engine, host, hreturn⟩ := result?_cases hresult
  obtain ⟨rfl, -⟩ := Call.returned hreturn
  obtain ⟨execution, hstored, hagrees | hbelated⟩ := Reachable.result_agrees hlate htask hreturn
  · exact ⟨execution, hstored, hagrees⟩
  · have hcompleted := hbelated.status
    rw [hfailed] at hcompleted
    cases hcompleted

/-- The deadline passes while the completion is on its way. -/
theorem result_of_late_completion :
    let late := ((Sample.session { slowWrite := [(3, 40000)] }).ask
      (Sample.start Sample.single)).play 17
    Reachable Steady late ∧ ∃ result, late.result? = some result ∧
      result.success = false ∧ result.error = some "Workflow timed out after 30000ms" ∧
      ∃ execution, late.stored result.executionId = some execution ∧
        execution.header.status = .completed ∧ ¬result.Agrees execution.header := by
  intro late
  have hlate : Reachable Steady late :=
    Sample.reachable_start ⟨⟨rfl, rfl, trivial⟩, rfl, trivial⟩ Sample.single 17
  refine ⟨hlate, ?_⟩
  have htold : late.result?.map (fun result =>
      (result.executionId, result.success, result.error)) =
        some (Sample.firstId, false, some "Workflow timed out after 30000ms") := by
    decide
  have hrecord : (late.stored Sample.firstId).map (·.header.status) = some .completed := by
    decide
  obtain ⟨result, hresult, hfields⟩ := Option.map_eq_some_iff.mp htold
  simp only [Prod.mk.injEq] at hfields
  obtain ⟨hid, hsuccess, herror⟩ := hfields
  obtain ⟨execution, hstored, hcompleted⟩ := Option.map_eq_some_iff.mp hrecord
  refine ⟨result, hresult, hsuccess, herror, execution, hid ▸ hstored, hcompleted, ?_⟩
  intro hagrees
  have hsucceeded : result.success = true := hagrees.success.mpr (by simp [hcompleted])
  rw [hsuccess] at hsucceeded
  cases hsucceeded

end Session

end WorkflowEngine
