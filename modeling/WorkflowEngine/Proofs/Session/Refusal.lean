import WorkflowEngine.Proofs.Session.Agreement
import WorkflowEngine.Proofs.Session.Ledger
import WorkflowEngine.Proofs.Session.Passage

/-!
What a refused commit leaves behind. When the store refuses a commit of a run, and no later one, the
run is given up with its working copy as it was when it asked, unless it is interrupted before it takes
notice and goes back to what was durable. What the lifecycle then allows of that copy is recorded: the
context and the step of a node whose checkpoint is lost, but no failure once the copy says completed.

The refusal of the record that a run was given up is not covered; it leaves the record as it was.
-/
namespace WorkflowEngine

/-- The working copy of a run that is recorded as failed. -/
def ExecutionState.failed (state : ExecutionState) (message : String) : ExecutionState :=
  { state with header := { state.header with status := .failed, error := some message } }

/-- Does a commit record no more than that a run was given up? -/
def Commit.isAbandonment (commit : Commit) : Bool :=
  commit.header.status == .failed && commit.appended.isEmpty

namespace Run

/-- A commit on its way was asked for by a run at work, which waits for it, or was interrupted since;
or it is the record of a run that was given up. -/
def Drafts (request : Request) (scope : Scope) (run : Run) (execution : StoredExecution) : Prop :=
  ∀ flight, run.handle.flight = some flight → flight.outcome = none →
    flight.commit.isAbandonment = true ∧ run.isInterruptible = false ∨
    ∃ (before : Run) (demand : Demand) (time : Timestamp),
      before.Ready request execution ∧ before.Demands scope demand ∧
      flight.commit = demand.state.commit demand.checkpoint time ∧
      (run.stage = .committing demand.purpose ∧ run.state = demand.state ∨
        ∃ cause, run.stage = .settling cause ∧ cause.isInterruption = true ∧
          run.state = demand.state.discardUncommitted)

/-- Why a run is given up after a refusal, and with which working copy. -/
inductive Sequel (copy : ExecutionState) (text : String) : EngineError → ExecutionState → Prop
  | noticed : Sequel copy text (.store (.io text)) copy
  | interrupted {cause : EngineError} (hcause : cause.isInterruption = true) :
      Sequel copy text cause copy.discardUncommitted

/-- Where a run stands after a refusal, by its stage: the record is as it was `before`, until it is
told that the run was given up. -/
def Aftermath (before : StoredExecution) (copy : ExecutionState) (text : String) (run : Run)
    (execution : StoredExecution) : Prop :=
  match run.stage with
  | .committing (.abort cause) =>
    ∃ left flight time, Sequel copy text cause left ∧ left.status.canBecome .failed = true ∧
      run.handle.flight = some flight ∧
      flight.commit = (left.failed cause.message).commit none time ∧
      (flight.outcome = none ∧ execution = before ∨
        flight.outcome = some (.ok ()) ∧ execution = before.extend flight.commit)
  | .committing _ =>
    ∃ flight, run.handle.flight = some flight ∧ flight.outcome = some (.error (.io text)) ∧
      run.state = copy ∧ execution = before
  | .settling cause =>
    cause.isInterruption = true ∧
      (∀ flight, run.handle.flight = some flight → flight.outcome ≠ none) ∧
      run.state = copy.discardUncommitted ∧ execution = before
  | .aborting cause =>
    run.handle.flight = none ∧ Sequel copy text cause run.state ∧ execution = before
  | .finished result =>
    run.handle.flight = none ∧ ∃ cause left, result = .error cause ∧
      Sequel copy text cause left ∧
      (left.status.canBecome .failed = false ∧ execution = before ∨
        left.status.canBecome .failed = true ∧
          ∃ time, execution = before.extend ((left.failed cause.message).commit none time))
  | _ => False

namespace Sequel

variable {copy left : ExecutionState} {text : String} {cause : EngineError}

theorem not_recorded (h : Sequel copy text cause left) : isRecorded cause = false := by
  cases h with
  | noticed => rfl
  | interrupted hcause => exact Run.not_recorded hcause

theorem level {before : StoredExecution} (h : Sequel copy text cause left)
    (hlevel : copy.Level before) : left.Level before := by
  cases h with
  | noticed => exact hlevel
  | interrupted => exact hlevel.discard.toLevel

theorem status_eq (h : Sequel copy text cause left) : left.status = copy.status := by
  cases h <;> rfl

end Sequel

section

variable {σ : Type} [ExecutionStore σ] {request : Request} {scope : Scope} {run run' : Run}
  {host host' : Host σ} {execution after : StoredExecution}

private theorem drafts_of_idle (h : run.handle.flight = none) :
    run.Drafts request scope execution := by
  intro flight hflight
  rw [h] at hflight
  cases hflight

private theorem Drafts.interrupt (h : run.Drafts request scope execution)
    (hopen : run.isInterruptible = true) {cause : EngineError}
    (hcause : cause.isInterruption = true) :
    Drafts request scope { (run.withState run.state.discardUncommitted) with
      stage := .settling cause
      cancelled := true
      attentive := 0 } execution := by
  intro flight hflight houtcome
  obtain ⟨-, hclosed⟩ | ⟨before, demand, time, hready, hdemand, hcommit, hstands⟩ :=
    h flight hflight houtcome
  · rw [hopen] at hclosed
    cases hclosed
  · refine Or.inr ⟨before, demand, time, hready, hdemand, hcommit, Or.inr ⟨cause, rfl, hcause, ?_⟩⟩
    rcases hstands with ⟨-, hstate⟩ | ⟨_, hstage, -⟩
    · exact congrArg ExecutionState.discardUncommitted hstate
    · simp [isInterruptible, hstage] at hopen

variable {Works : Request → Scope → Run → Chronicle → StoredExecution → Prop}
  {Done : Request → Scope → ExecutionStatus → Chronicle → StoredExecution → Prop}
  {chronicle : Chronicle}

private theorem Keeps.drafts (h : run.Keeps Works Done request scope chronicle execution)
    {demand : Demand} {flight : Flight} {time : Timestamp} (hdemand : run.Demands scope demand)
    (hcommit : flight.commit = demand.state.commit demand.checkpoint time) :
    Drafts request scope { run with
      handle := ⟨demand.state, some flight⟩
      queue := demand.queue
      dispatched := demand.dispatched
      stage := .committing demand.purpose } execution := by
  intro other hother _
  cases hother
  obtain ⟨-, hready, -⟩ | ⟨cause, hstage, -⟩ := h.asks hdemand
  · exact Or.inr ⟨run, demand, time, hready, hdemand, hcommit, Or.inl ⟨rfl, rfl⟩⟩
  · obtain ⟨-, hcheckpoint, hstatus, -, -, hpurpose⟩ := hdemand.abandoned hstage
    refine Or.inl ⟨?_, ?_⟩
    · simp [Commit.isAbandonment, hcommit, ExecutionState.commit, hcheckpoint, hstatus]
    · simp [isInterruptible, hpurpose]

private theorem Drafts.act (h : run.Drafts request scope execution)
    (hkeeps : run.Keeps Works Done request scope chronicle execution)
    (hact : run.Act scope host run') : run'.Drafts request scope execution := by
  -- A commit is on its way only while it is waited for, or settled.
  have hidle : (∀ purpose, run.stage ≠ .committing purpose) →
      (∀ cause, run.stage ≠ .settling cause) → ∀ flight, run.handle.flight = some flight →
        flight.outcome ≠ none := by
    intro hcommitting hsettling flight hflight houtcome
    obtain ⟨before, demand, -, hrun | ⟨cause, hstage, -⟩⟩ := hkeeps.flying hflight houtcome
    · exact hcommitting demand.purpose (by rw [hrun])
    · exact hsettling cause hstage
  cases hact with
  | interrupt cause hopen hcause => exact h.interrupt hopen hcause
  | ask time hdemand hcommit => exact hkeeps.drafts hdemand hcommit
  | settle | refuse | compare | fallBehind => exact drafts_of_idle rfl
  | skip hstage | call _ hstage | unfold hstage | adopt hstage | stayBehind hstage
  | close hstage =>
      intro flight hflight houtcome
      exact absurd houtcome (hidle (by simp [hstage]) (by simp [hstage]) flight hflight)
  | stray hillegal => exact absurd hkeeps.legal hillegal

private theorem Drafts.land (hlands : run.Lands host run' host') :
    run'.Drafts request scope after := by
  obtain ⟨hflight, houtcome, hstore⟩ := hlands
  intro flight hother hopen
  cases hother
  cases hopen

end

namespace Aftermath

variable {σ : Type} [ExecutionStore σ] {scope : Scope} {run run' : Run} {host host' : Host σ}
  {before execution after : StoredExecution} {copy : ExecutionState} {text : String}

/-- After a refusal a run asks for nothing but the record of its failure. -/
private theorem ask (h : run.Aftermath before copy text execution) {demand : Demand}
    {flight : Flight} {time : Timestamp} (hdemand : run.Demands scope demand)
    (hcommit : flight.commit = demand.state.commit demand.checkpoint time)
    (houtcome : flight.outcome = none) :
    Aftermath before copy text { run with
      handle := ⟨demand.state, some flight⟩
      queue := demand.queue
      dispatched := demand.dispatched
      stage := .committing demand.purpose } execution := by
  cases hdemand with
  | entry hstage | conclusion hstage | completion _ _ _ hstage | pause _ _ hstage =>
      simp [Aftermath, hstage] at h
  | failure _ _ hfails =>
      cases hfails with
      | unknown hstage | missing hstage | failed hstage => simp [Aftermath, hstage] at h
  | abandonment hstage _ hstate =>
      simp only [Aftermath, hstage] at h
      obtain ⟨-, hsequel, hbefore⟩ := h
      obtain ⟨hlegal, rfl⟩ := ExecutionState.fail_ok hstate
      exact ⟨run.state, flight, time, hsequel, hlegal, rfl, hcommit, Or.inl ⟨houtcome, hbefore⟩⟩

/-- A run that waits for a commit after a refusal gave up, or was not yet told. -/
private theorem waits (h : run.Aftermath before copy text execution) {purpose : Purpose}
    (hstage : run.stage = .committing purpose) {flight : Flight}
    (hflight : run.handle.flight = some flight) :
    (∃ cause left time, purpose = .abort cause ∧ Sequel copy text cause left ∧
      left.status.canBecome .failed = true ∧
      flight.commit = (left.failed cause.message).commit none time ∧
      (flight.outcome = none ∧ execution = before ∨
        flight.outcome = some (.ok ()) ∧ execution = before.extend flight.commit)) ∨
    (∀ cause, purpose ≠ .abort cause) ∧ flight.outcome = some (.error (.io text)) ∧
      run.state = copy ∧ execution = before := by
  cases purpose with
  | abort cause =>
      simp only [Aftermath, hstage] at h
      obtain ⟨left, other, time, hsequel, hlegal, hother, hcommit, hlanded⟩ := h
      cases hflight.symm.trans hother
      exact Or.inl ⟨cause, left, time, rfl, hsequel, hlegal, hcommit, hlanded⟩
  | entry | completion | pause | failure | conclusion =>
      simp only [Aftermath, hstage] at h
      obtain ⟨other, hother, hrefused, hstate, hbefore⟩ := h
      cases hflight.symm.trans hother
      exact Or.inr ⟨by simp, hrefused, hstate, hbefore⟩

variable [LawfulStore σ]

private theorem act (hlevel : copy.Level before) (h : run.Aftermath before copy text execution)
    (hlegal : run.Legal) (hstored : LawfulStore.stored host.store run.id = some execution)
    (hact : run.Act scope host run') : run'.Aftermath before copy text execution := by
  cases hact with
  | interrupt cause hopen hcause =>
      cases hstage : run.stage with
      | committing purpose =>
          cases purpose with
          | abort => simp [isInterruptible, hstage] at hopen
          | entry | completion | pause | failure | conclusion =>
              simp only [Aftermath, hstage] at h
              obtain ⟨flight, hflight, houtcome, hstate, hbefore⟩ := h
              refine ⟨hcause, ?_, congrArg ExecutionState.discardUncommitted hstate, hbefore⟩
              intro other hother
              cases hflight.symm.trans hother
              simp [houtcome]
      | entering | dispatching | executing | settling | catchingUp | aborting | finished =>
          simp [Aftermath, isInterruptible, hstage] at h hopen
  | ask time hdemand hcommit houtcome => exact h.ask hdemand hcommit houtcome
  | skip hstage | call _ hstage | unfold hstage | adopt hstage | stayBehind hstage =>
      simp [Aftermath, hstage] at h
  | settle hstage hflight houtcome =>
      obtain ⟨cause, left, time, rfl, hsequel, hlegal, hcommit, ⟨hnone, -⟩ | ⟨-, hafter⟩⟩ |
        ⟨-, hrefused, -⟩ := h.waits hstage hflight
      · rw [houtcome] at hnone
        cases hnone
      · refine ⟨rfl, cause, left, rfl, hsequel, Or.inr ⟨hlegal, time, ?_⟩⟩
        rw [← hcommit]
        exact hafter
      · rw [houtcome] at hrefused
        cases hrefused
  | @refuse purpose flight cause hstage hflight houtcome =>
      obtain ⟨_, _, _, -, -, -, -, ⟨hlanded, -⟩ | ⟨hlanded, -⟩⟩ |
        ⟨hpurpose, hrefused, hstate, hbefore⟩ := h.waits hstage hflight
      · rw [houtcome] at hlanded
        cases hlanded
      · rw [houtcome] at hlanded
        cases hlanded
      · cases houtcome.symm.trans hrefused
        cases purpose with
        | abort other => exact absurd rfl (hpurpose other)
        | entry | completion | pause | failure | conclusion =>
            refine ⟨rfl, ?_, hbefore⟩
            change Sequel copy text _ run.state
            rw [hstate]
            exact .noticed
  | compare hstage =>
      simp only [Aftermath, hstage] at h
      obtain ⟨hcause, -, hstate, hbefore⟩ := h
      refine ⟨rfl, ?_, hbefore⟩
      change Sequel copy text _ run.state
      rw [hstate]
      exact .interrupted hcause
  | fallBehind hstage hidle hload hbehind =>
      simp only [Aftermath, hstage] at h
      obtain ⟨-, -, hstate, rfl⟩ := h
      have hfound := LawfulStore.loadHeader_ok hload
      rw [hstored] at hfound
      cases hfound
      have hversion : run.state.header.version = execution.header.version := by
        rw [hstate]
        exact hlevel.version
      simp [ExecutionState.isBehind, hversion] at hbehind
  | close hstage hclosed =>
      simp only [Aftermath, hstage] at h
      obtain ⟨hflight, hsequel, hbefore⟩ := h
      refine ⟨hflight, _, run.state, rfl, hsequel, Or.inl ⟨?_, hbefore⟩⟩
      rcases hclosed with hrecorded | hfinal
      · rw [hsequel.not_recorded] at hrecorded
        cases hrecorded
      · exact hfinal
  | stray hillegal => exact absurd hlegal hillegal

private theorem land (hlevel : copy.Level before) (h : run.Aftermath before copy text execution)
    (hmended : Mended host.store) (hstored : LawfulStore.stored host.store run.id = some execution)
    (hlands : run.Lands host run' host')
    (hafter : LawfulStore.stored host'.store run.id = some after) :
    run'.Aftermath before copy text after := by
  obtain ⟨hflight, houtcome, hstore⟩ := hlands
  rename_i flight
  cases hstage : run.stage with
  | committing purpose =>
      obtain ⟨cause, left, time, rfl, hsequel, hlegal, hcommit, ⟨-, rfl⟩ | ⟨hlanded, -⟩⟩ |
        ⟨-, hrefused, -⟩ := h.waits hstage hflight
      · have hleft := hsequel.level hlevel
        have hfits : flight.commit.Fits execution := by
          rw [hcommit]
          exact ⟨hleft.id, hleft.version, congrArg (· + 1) hleft.version⟩
        obtain ⟨hresult, hlanded⟩ := hfits.accepted hmended hstored
        rw [hstore, hlanded, Function.update_self] at hafter
        cases hafter
        simp only [Aftermath]
        exact ⟨left, _, time, hsequel, hlegal, rfl, hcommit, Or.inr ⟨congrArg some hresult, rfl⟩⟩
      · rw [houtcome] at hlanded
        cases hlanded
      · rw [houtcome] at hrefused
        cases hrefused
  | settling cause =>
      simp only [Aftermath, hstage] at h
      exact absurd houtcome (h.2.1 flight hflight)
  | aborting | finished =>
      simp only [Aftermath, hstage] at h
      rw [h.1] at hflight
      cases hflight
  | entering | dispatching | executing | catchingUp => simp [Aftermath, hstage] at h

end Aftermath

end Run

/-- A record of which it is told that a run was given up: after an interruption with the context and the
step it had, else with those of the lost commit. -/
def StoredExecution.givenUp (before : StoredExecution) (cause : EngineError) (lost : Commit)
    (time : Timestamp) : StoredExecution where
  header :=
    { before.header with
      status := .failed
      error := some cause.message
      context := if cause.isInterruption then before.header.context else lost.header.context
      currentStep :=
        if cause.isInterruption then before.header.currentStep else lost.header.currentStep
      version := before.header.version + 1
      updatedAt := time }
  log := before.log

/-- What a run is given up with is told of its record. -/
theorem Run.Sequel.extend_eq {request : Request} {scope : Scope} {run : Run}
    {before : StoredExecution} {demand : Run.Demand} {text : String} {cause : EngineError}
    {left : ExecutionState} (hready : run.Ready request before)
    (hdemand : run.Demands scope demand) (h : Sequel demand.state text cause left)
    (asked time : Timestamp) :
    before.extend ((left.failed cause.message).commit none time) =
      before.givenUp cause (demand.state.commit demand.checkpoint asked) time := by
  obtain ⟨live, hlive⟩ := hready.state_eq
  obtain ⟨status, context, step, error, hstate⟩ := hdemand.state_eq
  rw [hlive] at hstate
  unfold StoredExecution.extend StoredExecution.givenUp
  congr 1
  · cases h with
    | noticed =>
        rw [hstate]
        rfl
    | interrupted hcause =>
        rw [hstate]
        simp only [ExecutionState.commit, ExecutionState.failed, hcause, if_true]
        rfl
  · simp [ExecutionState.commit]

/-- What a run keeps of its record and of its commits, on any store. -/
def Run.Drafting (request : Request) (scope : Scope) (run : Run) (chronicle : Chronicle)
    (execution : StoredExecution) : Prop :=
  (execution.Numbered ∧ True ∧ run.Keeps (fun _ _ _ _ _ => True)
    (fun _ _ status _ execution => execution.LeftAs status) request scope chronicle execution) ∧
  run.Drafts request scope execution

theorem drafting_custody {σ : Type} [ExecutionStore σ] [LawfulStore σ] {Kind : σ → Prop}
    (hinsert : ∀ {store header}, Kind store → Kind (ExecutionStore.insert store header).2)
    (hcommit : ∀ {store commit}, Kind store → Kind (ExecutionStore.commit store commit).2) :
    Custody Kind (fun _ execution => execution.Numbered ∧ True) Run.Drafting :=
  (agreement_conduct.custody hinsert hcommit).also
    (fun request scope run execution => run.Drafts request scope execution)
    (by
      intro request scope run execution _ hflight
      exact Run.drafts_of_idle hflight)
    (fun cancelled h => h)
    (fun ⟨_, _, hkeeps⟩ h _ _ hact => h.act hkeeps hact)
    (fun _ _ _ _ hlands _ => Run.Drafts.land hlands)

namespace Session

variable {σ : Type} [ExecutionStore σ]

/-- A step in which the store refuses a commit to an execution that one of the calls runs. -/
inductive Refuses (session : Session σ) (id : ExecutionId) (commit : Commit) (text : String) :
    Session σ → Prop
  | intro {task : Task} {others : List Task} {scope : Scope} {run run' : Run} {engine : Engine}
      {host : Host σ} (htasks : session.tasks.Perm (task :: others))
      (hcall : task.call = .driving scope run) (hid : run.id = id)
      (hnext : task.call.next? session.engine session.host =
        some (.driving scope run', engine, host))
      (hrefused : run.landing? run' = some (commit, .error (.io text))) :
      Refuses session id commit text
        { engine, host
          tasks := ⟨task.request, .driving scope run'⟩ :: others
          chronicles := session.note task (.driving scope run') }

/-- The commit that the store refuses to the call made last in the next step. -/
def refusal? (session : Session σ) : Option (ExecutionId × Commit × String) := do
  let task ← session.tasks.head?
  let next ← task.call.next? session.engine session.host
  match task.call, next.1 with
  | .driving _ run, .driving _ run' =>
    match run.landing? run' with
    | some (commit, .error (.io text)) => some (run.id, commit, text)
    | _ => none
  | _, _ => none

theorem refuses_of_refusal? {session : Session σ} {id : ExecutionId} {commit : Commit}
    {text : String} (h : session.refusal? = some (id, commit, text)) :
    session.Refuses id commit text (session.play 1) := by
  unfold refusal? at h
  cases htasks : session.tasks with
  | nil => simp [htasks] at h
  | cons task others =>
      cases hnext : task.call.next? session.engine session.host with
      | none => simp [htasks, hnext] at h
      | some next =>
          obtain ⟨call, engine, host⟩ := next
          simp only [htasks, List.head?_cons, hnext, Option.bind_eq_bind, Option.bind_some] at h
          split at h
          · rename_i scope run scope' run' hcall
            split at h
            · rename_i commit' text' hlanding
              cases h
              simp only [play, htasks, hnext]
              rw [hcall] at hnext
              rcases Call.driving_cases hnext with ⟨-, _, hended⟩ | ⟨_, _, hsame, -⟩
              · cases hended
              · cases hsame
                rw [← hcall] at hnext
                exact .intro (List.Perm.of_eq htasks) hcall rfl hnext hlanding
            · cases h
          · cases h

variable [LawfulStore σ] {session first later : Session σ} {id : ExecutionId} {commit : Commit}
  {text : String}

/-- Where a run stands right after a refusal. -/
private theorem Refuses.aftermath (h : Reachable (fun _ => True) session)
    (hrefuses : session.Refuses id commit text first) (hkept : commit.isAbandonment = false) :
    first.Orderly (fun _ => True) (fun _ execution => execution.Numbered ∧ True) Run.Drafting ∧
    ∃ (request : Request) (scope : Scope) (before : StoredExecution) (run asked : Run)
        (demand : Run.Demand) (time : Timestamp),
      ⟨request, .driving scope run⟩ ∈ first.tasks ∧ run.id = id ∧
      session.stored id = some before ∧ first.stored id = some before ∧
      asked.Ready request before ∧ asked.Demands scope demand ∧
      commit = demand.state.commit demand.checkpoint time ∧
      run.Aftermath before demand.state text before := by
  have custody : Custody (σ := σ) (fun _ => True) _ Run.Drafting :=
    drafting_custody (fun _ => trivial) fun _ => trivial
  have horderly := h.orderly custody
  cases hrefuses with
  | @intro task others scope run run' engine host htasks hcall hid hnext hrefused =>
      refine ⟨horderly.step custody (.advance htasks hnext), ?_⟩
      have htask : task ∈ session.tasks := htasks.mem_iff.mpr List.mem_cons_self
      obtain ⟨before, hstored, ⟨-, -, hkeeps⟩, hdrafts⟩ := horderly.driven htask hcall
      rw [hcall] at hnext
      rcases Call.driving_cases hnext with ⟨-, _, hended⟩ | ⟨next, cancelled, hgoes, hmoves⟩
      · cases hended
      · cases hgoes
        rcases hmoves with hlands | ⟨-, hact⟩
        · obtain ⟨flight, hflight, houtcome, rfl, hresult, hstore, rfl⟩ := hlands.answer hrefused
          have hsame : LawfulStore.stored host.store id = some before := by
            rw [← hid, hstore, LawfulStore.commit_error hresult]
            exact hstored
          obtain ⟨habandoned, -⟩ | ⟨asked, demand, time, hready, hdemand, hcommit, hstands⟩ :=
            hdrafts flight hflight houtcome
          · rw [hkept] at habandoned
            cases habandoned
          · refine ⟨task.request, scope, before, _, asked, demand, time, List.mem_cons_self, hid,
              hid ▸ hstored, hsame, hready, hdemand, hcommit, ?_⟩
            rcases hstands with ⟨hstage, hstate⟩ | ⟨cause, hstage, hcause, hstate⟩
            · cases hpurpose : demand.purpose with
              | abort cause =>
                  cases hdemand with
                  | abandonment hother => exact absurd hother hready.not_aborting
                  | _ => cases hpurpose
              | entry | completion | pause | failure | conclusion =>
                  rw [hpurpose] at hstage
                  simp only [Run.Aftermath, hstage]
                  exact ⟨_, rfl, rfl, hstate, trivial⟩
            · simp only [Run.Aftermath, hstage]
              refine ⟨hcause, ?_, hstate, trivial⟩
              intro other hother
              cases hother
              simp
        · have hlegal : run.Legal := hkeeps.legal
          have hnone : run.landing? run' = none := hact.landing hlegal
          rw [hnone] at hrefused
          cases hrefused

/-- A run whose commit was refused is given up, and this is told of the record it had, if the lifecycle
allows it. -/
theorem Reachable.given_up (h : Reachable (fun _ => True) session)
    (hrefuses : session.Refuses id commit text first) (hkept : commit.isAbandonment = false)
    (hmended : Mended first.host.store) (hdriven : Driven id first later) {task : Task}
    (htask : task ∈ later.tasks) {result : RunResult} {engine : Engine} {host : Host σ}
    (hreturn : task.call.next? later.engine later.host =
      some (.ended (.ok result), engine, host)) (hid : result.executionId = id) :
    ∃ before after cause, session.stored id = some before ∧
      LawfulStore.stored host.store id = some after ∧ result.error = some cause.message ∧
      (cause.isInterruption = true ∨ cause = .store (.io text)) ∧
      (∃ (request : Request) (scope : Scope) (run : Run) (demand : Run.Demand),
        run.Ready request before ∧ run.Makes request scope before demand commit) ∧
      (commit.header.status.canBecome .failed = false ∧ after = before ∨
        commit.header.status.canBecome .failed = true ∧
          ∃ time, after = before.givenUp cause commit time) := by
  obtain ⟨horderly, request, scope, before, run, asked, demand, time, hrun, rfl, hstored, hsame,
    hready, hdemand, rfl, haftermath⟩ := hrefuses.aftermath h hkept
  have custody : Custody (σ := σ) Mended _ Run.Drafting :=
    drafting_custody Mended.insert Mended.commit
  have hlevel : demand.state.Level before := hdemand.level hready.level.2
  obtain ⟨horderly', run', after, hrun', hid', hstored', haftermath'⟩ :=
    hdriven.keeps custody
      (fun _ run execution => run.Aftermath before demand.state text execution)
      (fun cancelled h => h) (fun h hlegal hstored hact => h.act hlevel hlegal hstored hact)
      (fun h hmended hstored hlands hafter => h.land hlevel hmended hstored hlands hafter)
      (horderly.withKind hmended) hrun hsame haftermath
  obtain ⟨rfl, _, returned, outcome, hcall, hstage, rfl⟩ := Call.returned hreturn
  have hreturned : returned.id = run.id := by
    cases outcome <;> exact hid
  have htask' : task = ⟨request, .driving scope run'⟩ := by
    have hholds : Call.holds? (.driving scope run') = some run.id := congrArg some hid'
    apply horderly'.sole hrun' htask hholds
    rw [hcall]
    exact congrArg some hreturned
  rw [htask'] at hcall
  cases hcall
  simp only [Run.Aftermath, hstage] at haftermath'
  obtain ⟨-, cause, left, rfl, hsequel, hend⟩ := haftermath'
  refine ⟨before, after, cause, hstored, hstored', rfl, ?_, ?_, ?_⟩
  · cases hsequel with
    | noticed => exact Or.inr rfl
    | interrupted hcause => exact Or.inl hcause
  · exact ⟨request, scope, asked, demand, hready, hdemand.makes hready time rfl⟩
  · rw [hsequel.status_eq] at hend
    rcases hend with hfinal | ⟨hlegal, stamp, hafter⟩
    · exact Or.inl hfinal
    · refine Or.inr ⟨hlegal, stamp, ?_⟩
      rw [hafter]
      exact hsequel.extend_eq hready hdemand time stamp

/-- A run that lost a checkpoint leaves a failure on a log as it was. What the node did is dropped if
it failed, or if the run was interrupted before it took notice; else its context and its step are left
without a checkpoint. -/
theorem Reachable.lost_checkpoint (h : Reachable (fun _ => True) session)
    (hrefuses : session.Refuses id commit text first) {checkpoint : Checkpoint}
    (hcheckpoint : commit.appended = [checkpoint]) (hmended : Mended first.host.store)
    (hdriven : Driven id first later) {task : Task} (htask : task ∈ later.tasks)
    {result : RunResult} {engine : Engine} {host : Host σ}
    (hreturn : task.call.next? later.engine later.host =
      some (.ended (.ok result), engine, host)) (hid : result.executionId = id) :
    ∃ (before after : StoredExecution) (cause : EngineError) (time : Timestamp),
      session.stored id = some before ∧
      LawfulStore.stored host.store id = some after ∧ result.error = some cause.message ∧
      (cause.isInterruption = true ∨ cause = .store (.io text)) ∧ after.log = before.log ∧
      (checkpoint.isError = true ∨ cause.isInterruption = true →
        after.header = { before.header with
          status := .failed
          error := some cause.message
          version := before.header.version + 1
          updatedAt := time }) ∧
      (checkpoint.isError = false → cause = .store (.io text) →
        after.header = { before.header with
          status := .failed
          context := checkpoint.context
          currentStep := before.header.currentStep + 1
          error := some cause.message
          version := before.header.version + 1
          updatedAt := time }) := by
  have hkept : commit.isAbandonment = false := by simp [Commit.isAbandonment, hcheckpoint]
  obtain ⟨before, after, cause, hstored, hstored', herror, hcause, hmakes, hend⟩ :=
    h.given_up hrefuses hkept hmended hdriven htask hreturn hid
  obtain ⟨request, scope, run, demand, -, hmakes⟩ := hmakes
  have hlost : commit.header.status.canBecome .failed = true ∧
      (checkpoint.isError = true → commit.header.context = before.header.context ∧
        commit.header.currentStep = before.header.currentStep) ∧
      (checkpoint.isError = false → commit.header.context = checkpoint.context ∧
        commit.header.currentStep = before.header.currentStep + 1) := by
    cases hmakes with
    | opening _ happended | closing _ _ happended =>
        rw [hcheckpoint] at happended
        cases happended
    | failing _ happended hstatus hstep hcontext _ _ herror =>
        rw [hcheckpoint] at happended
        cases happended
        refine ⟨by rw [hstatus]; rfl, fun _ => ⟨hcontext, hstep⟩, ?_⟩
        intro hnone
        rw [herror] at hnone
        cases hnone
    | @answering _ outcome _ _ _ _ _ _ _ happended hstatus hstep _ _ _ herror hlive =>
        rw [hcheckpoint] at happended
        cases happended
        refine ⟨?_, ?_, fun _ => ⟨hlive.symm, hstep⟩⟩
        · rw [hstatus]
          cases outcome.isPause <;> rfl
        · intro hsome
          simp [Checkpoint.isError, herror] at hsome
  obtain ⟨hlegal, hfailed, hanswered⟩ := hlost
  obtain ⟨hfinal, -⟩ | ⟨-, time, rfl⟩ := hend
  · rw [hlegal] at hfinal
    cases hfinal
  · refine ⟨before, _, cause, time, hstored, hstored', herror, hcause, rfl, ?_, ?_⟩
    · rintro (hnode | hinterrupted)
      · obtain ⟨hcontext, hstep⟩ := hfailed hnode
        simp [StoredExecution.givenUp, hcontext, hstep]
      · simp [StoredExecution.givenUp, hinterrupted]
    · rintro hnode rfl
      obtain ⟨hcontext, hstep⟩ := hanswered hnode
      simp [StoredExecution.givenUp, EngineError.isInterruption, hcontext, hstep]

/-- The deadline passes while the refusal of the second checkpoint is on its way back. -/
theorem Reachable.lost_checkpoint_of_timeout :
    let asked := ((Sample.session { failCommits := [3], slowAck := [(3, 40000)] }).ask
      (Sample.start Sample.gated)).play 11
    let ended := (asked.play 1).play 7
    ∃ before after, asked.stored Sample.firstId = some before ∧
      ended.stored Sample.firstId = some after ∧ after.log = before.log ∧
      after.header.context = before.header.context ∧
      after.header.currentStep = before.header.currentStep := by
  intro asked ended
  have hasked : Reachable (fun _ => True) asked :=
    Sample.reachable_start trivial Sample.gated 11
  have hloss : asked.refusal?.map (fun (id, commit, text) =>
      (id, commit.appended.map (·.nodeId), text)) =
        some (Sample.firstId, ["gate"], "commit refused") := by
    decide
  obtain ⟨⟨id, commit, text⟩, hrefusal, hfields⟩ := Option.map_eq_some_iff.mp hloss
  simp only [Prod.mk.injEq] at hfields
  obtain ⟨rfl, hnodes, rfl⟩ := hfields
  obtain ⟨checkpoint, hcheckpoint, -⟩ := List.map_eq_singleton_iff.mp hnodes
  have hmended : Mended (asked.play 1).host.store :=
    FaultyStore.Over.mended ⟨by decide, by decide, trivial⟩
  have hdriven : Driven Sample.firstId (asked.play 1) ended := .play 7 (by decide)
  have htold : ended.result?.map (fun result => (result.executionId, result.error)) =
      some (Sample.firstId, some "Workflow timed out after 30000ms") := by
    decide
  obtain ⟨result, hresult, htold⟩ := Option.map_eq_some_iff.mp htold
  obtain ⟨hid, herror⟩ := Prod.mk.inj htold
  obtain ⟨task, htask, engine, host, hreturn⟩ := result?_cases hresult
  obtain ⟨before, after, cause, time, hbefore, hafter, hmessage, hcause, hlog, hkept, -⟩ :=
    Reachable.lost_checkpoint hasked (refuses_of_refusal? hrefusal) hcheckpoint hmended hdriven
      htask hreturn hid
  rw [(Call.returned hreturn).1] at hafter
  have hinterrupted : cause.isInterruption = true := by
    rcases hcause with hinterrupted | rfl
    · exact hinterrupted
    · rw [herror] at hmessage
      exact absurd hmessage (by decide)
  have hheader := hkept (Or.inr hinterrupted)
  exact ⟨before, after, hbefore, hafter, hlog, by rw [hheader], by rw [hheader]⟩

/-- The second checkpoint is refused: the step and the visit are left, and a resumed call of the node
adds another visit. -/
theorem trace_of_lost_checkpoint :
    let asked := ((Sample.session { failCommits := [3] }).ask (Sample.start Sample.gated)).play 11
    let ended := (asked.play 1).play 4
    let resumed := ((ended.play 1).ask (Sample.resume Sample.gated)).play 30
    Reachable (fun _ => True) asked ∧
    (∃ commit text, asked.Refuses Sample.firstId commit text (asked.play 1) ∧
      commit.appended.map (·.nodeId) = ["gate"]) ∧
    Mended (asked.play 1).host.store ∧ Driven Sample.firstId (asked.play 1) ended ∧
    ended.result?.map (·.executionId) = some Sample.firstId ∧
    (asked.stored Sample.firstId).map (fun execution =>
      (execution.header.currentStep, stepsOf execution.log, Sample.trail execution.header.context)) =
        some (1, 1, ["first"]) ∧
    (ended.stored Sample.firstId).map (fun execution =>
      (execution.header.currentStep, stepsOf execution.log, Sample.trail execution.header.context)) =
        some (2, 1, ["first", "gate"]) ∧
    (resumed.stored Sample.firstId).map (fun execution =>
      Sample.trail execution.header.context) = some ["first", "gate", "gate"] := by
  intro asked ended resumed
  have hasked : Reachable (fun _ => True) asked :=
    Sample.reachable_start trivial Sample.gated 11
  have hloss : asked.refusal?.map (fun (id, commit, _) =>
      (id, commit.appended.map (·.nodeId))) = some (Sample.firstId, ["gate"]) := by
    decide
  obtain ⟨⟨id, commit, text⟩, hrefusal, hfields⟩ := Option.map_eq_some_iff.mp hloss
  obtain ⟨rfl, hnodes⟩ := Prod.mk.inj hfields
  refine ⟨hasked, ⟨commit, text, refuses_of_refusal? hrefusal, hnodes⟩, ?_, ?_, ?_,
    ?_, ?_, ?_⟩
  · exact FaultyStore.Over.mended ⟨by decide, by decide, trivial⟩
  · exact .play 4 (by decide)
  all_goals decide

/-- A run that lost a commit leaves a failure, which can be resumed if there is a checkpoint; unless it
lost its completion, after which the record still says that it is running. -/
theorem Reachable.status_of_lost_commit (h : Reachable (fun _ => True) session)
    (hrefuses : session.Refuses id commit text first) (hkept : commit.isAbandonment = false)
    (hmended : Mended first.host.store) (hdriven : Driven id first later) {task : Task}
    (htask : task ∈ later.tasks) {result : RunResult} {engine : Engine} {host : Host σ}
    (hreturn : task.call.next? later.engine later.host =
      some (.ended (.ok result), engine, host)) (hid : result.executionId = id) :
    ∃ before after, session.stored id = some before ∧
      LawfulStore.stored host.store id = some after ∧
      (commit.header.status ≠ .completed →
        after.header.status = .failed ∧ (after.log ≠ [] → after.state.canResume = true)) ∧
      (commit.header.status = .completed → after = before ∧ after.header.status = .running) := by
  obtain ⟨before, after, cause, hstored, hstored', -, -, hmakes, hend⟩ :=
    h.given_up hrefuses hkept hmended hdriven htask hreturn hid
  refine ⟨before, after, hstored, hstored', ?_, ?_⟩
  · intro hopen
    obtain ⟨hfinal, -⟩ | ⟨-, time, rfl⟩ := hend
    · exact absurd (ExecutionStatus.eq_completed hfinal) hopen
    · refine ⟨rfl, ?_⟩
      intro hlog
      change before.log ≠ [] at hlog
      change (!before.log.isEmpty) = true
      simpa using hlog
  · intro hcompleted
    obtain ⟨-, rfl⟩ | ⟨hlegal, -⟩ := hend
    · refine ⟨rfl, ?_⟩
      obtain ⟨request, scope, run, demand, hready, hmakes⟩ := hmakes
      cases hmakes with
      | closing hstage =>
          simp only [Run.Ready, hstage] at hready
          exact hready.2
      | opening _ _ hstatus | failing _ _ hstatus =>
          rw [hcompleted] at hstatus
          cases hstatus
      | @answering _ outcome _ _ _ _ _ _ _ _ hstatus =>
          rw [hcompleted] at hstatus
          cases hpause : outcome.isPause <;> simp [hpause] at hstatus
    · rw [hcompleted] at hlegal
      cases hlegal

/-- The second checkpoint is refused, and the execution can be resumed. -/
theorem Reachable.status_of_lost_commit_of_pause :
    let asked := ((Sample.session { failCommits := [3] }).ask (Sample.start Sample.gated)).play 11
    let ended := (asked.play 1).play 4
    ∃ after, ended.stored Sample.firstId = some after ∧ after.header.status = .failed ∧
      after.state.canResume = true := by
  intro asked ended
  have hasked : Reachable (fun _ => True) asked :=
    Sample.reachable_start trivial Sample.gated 11
  have hloss : asked.refusal?.map (fun (id, commit, _) =>
      (id, commit.header.status, commit.isAbandonment)) =
        some (Sample.firstId, .paused, false) := by
    decide
  obtain ⟨⟨id, commit, text⟩, hrefusal, hfields⟩ := Option.map_eq_some_iff.mp hloss
  simp only [Prod.mk.injEq] at hfields
  obtain ⟨rfl, hpaused, hkept⟩ := hfields
  have hmended : Mended (asked.play 1).host.store :=
    FaultyStore.Over.mended ⟨by decide, by decide, trivial⟩
  have hdriven : Driven Sample.firstId (asked.play 1) ended := .play 4 (by decide)
  have htold : ended.result?.map (·.executionId) = some Sample.firstId := by decide
  obtain ⟨result, hresult, hid⟩ := Option.map_eq_some_iff.mp htold
  obtain ⟨task, htask, engine, host, hreturn⟩ := result?_cases hresult
  obtain ⟨before, after, -, hafter, hopen, -⟩ :=
    Reachable.status_of_lost_commit hasked (refuses_of_refusal? hrefusal) hkept hmended hdriven
      htask hreturn hid
  rw [(Call.returned hreturn).1] at hafter
  obtain ⟨hfailed, hresume⟩ := hopen (by simp [hpaused])
  have hlog : (ended.stored Sample.firstId).map (·.log.length) = some 1 := by decide
  obtain ⟨found, hfound, hlength⟩ := Option.map_eq_some_iff.mp hlog
  cases hafter.symm.trans hfound
  refine ⟨_, hafter, hfailed, hresume ?_⟩
  rintro hnil
  simp [hnil] at hlength

/-- The completion is refused: the call is over, and the execution runs for ever. -/
theorem stuck_of_lost_completion :
    let asked := ((Sample.session { failCommits := [3] }).ask (Sample.start Sample.single)).play 10
    let ended := (asked.play 1).play 2
    Reachable (fun _ => True) asked ∧
    (∃ commit text, asked.Refuses Sample.firstId commit text (asked.play 1) ∧
      commit.header.status = .completed) ∧
    Mended (asked.play 1).host.store ∧ Driven Sample.firstId (asked.play 1) ended ∧
    ended.result?.map (fun result => (result.executionId, result.status, result.success)) =
      some (Sample.firstId, .completed, false) ∧
    ∃ after, ended.stored Sample.firstId = some after ∧ after.header.status = .running ∧
      after.log.length = 1 ∧ after.state.canResume = false := by
  intro asked ended
  have hasked : Reachable (fun _ => True) asked :=
    Sample.reachable_start trivial Sample.single 10
  have hloss : asked.refusal?.map (fun (id, commit, _) => (id, commit.header.status)) =
      some (Sample.firstId, .completed) := by
    decide
  obtain ⟨⟨id, commit, text⟩, hrefusal, hfields⟩ := Option.map_eq_some_iff.mp hloss
  obtain ⟨rfl, hcompleted⟩ := Prod.mk.inj hfields
  refine ⟨hasked, ⟨commit, text, refuses_of_refusal? hrefusal, hcompleted⟩, ?_, ?_,
    ?_, ?_⟩
  · exact FaultyStore.Over.mended ⟨by decide, by decide, trivial⟩
  · exact .play 2 (by decide)
  · decide
  · have hrecord : (ended.stored Sample.firstId).map (fun execution =>
        (execution.header.status, execution.log.length, execution.state.canResume)) =
          some (.running, 1, false) := by
      decide
    obtain ⟨after, hafter, hfields⟩ := Option.map_eq_some_iff.mp hrecord
    simp only [Prod.mk.injEq] at hfields
    exact ⟨after, hafter, hfields⟩

end Session

end WorkflowEngine
