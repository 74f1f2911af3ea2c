import WorkflowEngine.Proofs.Session.Once
import WorkflowEngine.Proofs.Session.Passage

/-!
What a record says of failures. Its error is the message of the failure that was recorded last, until
the execution is completed: a run that goes on after a failure, or pauses, leaves the error as it is.
So a failed record has an error and a completed one has none, but a running or a paused one may still
have that of an earlier run.

This holds in every lawful store. A failure that the store refused to record is not covered.
-/
namespace WorkflowEngine

namespace Run

/-- The message of the failure that a commit is to record. -/
def Purpose.message? : Purpose → Option String
  | .failure cause => some cause.message
  | .abort cause => some cause.message
  | _ => none

variable {scope : Scope} {run : Run} {demand : Demand}

/-- What is asked for with a failure tells its message, in the record and in the checkpoint; anything
else leaves the error as it is, or takes it away at the end. -/
theorem Demands.error_cases (h : run.Demands scope demand) (hlegal : run.Legal) :
    (∃ message, demand.purpose.message? = some message ∧
      demand.state.header.status = .failed ∧ demand.state.header.error = some message ∧
      ∀ checkpoint, demand.checkpoint = some checkpoint → checkpoint.error = some message) ∨
    demand.purpose.message? = none ∧
      (∀ cause, run.stage ≠ .aborting cause) ∧
      (demand.state.header.status = .completed ∧ demand.state.header.error = none ∨
        (demand.state.header.status = .running ∨ demand.state.header.status = .paused) ∧
          run.state.status ≠ .completed ∧
          demand.state.header.error = run.state.header.error) := by
  cases h with
  | entry hstage hstate =>
      obtain ⟨hbegins, rfl⟩ := ExecutionState.setStatus_ok hstate
      refine Or.inr ⟨rfl, by simp [hstage], Or.inr ⟨Or.inl rfl, ?_, rfl⟩⟩
      intro hcompleted
      rw [hcompleted] at hbegins
      cases hbegins
  | conclusion hstage _ hstate =>
      obtain ⟨-, rfl⟩ := ExecutionState.complete_ok hstate
      exact Or.inr ⟨rfl, by simp [hstage], Or.inl ⟨rfl, rfl⟩⟩
  | @failure _ _ _ _ _ message _ _ _ _ hstate =>
      obtain ⟨-, rfl⟩ := ExecutionState.fail_ok hstate
      refine Or.inl ⟨message, rfl, rfl, rfl, ?_⟩
      rintro checkpoint ⟨⟩
      rfl
  | completion _ _ _ hstage =>
      simp only [Legal, hstage] at hlegal
      exact Or.inr ⟨rfl, by simp [hstage], Or.inr ⟨Or.inl hlegal, by simp [hlegal], rfl⟩⟩
  | pause _ _ hstage _ _ hstate =>
      simp only [Legal, hstage] at hlegal
      obtain ⟨-, rfl⟩ := ExecutionState.setStatus_ok hstate
      exact Or.inr ⟨rfl, by simp [hstage], Or.inr ⟨Or.inr rfl, by simp [hlegal], rfl⟩⟩
  | @abandonment cause _ _ _ hstate =>
      obtain ⟨-, rfl⟩ := ExecutionState.fail_ok hstate
      refine Or.inl ⟨cause.message, rfl, rfl, rfl, ?_⟩
      rintro checkpoint ⟨⟩

variable {Works : Request → Scope → Run → Chronicle → StoredExecution → Prop}
  {Done : Request → Scope → ExecutionStatus → Chronicle → StoredExecution → Prop}
  {request : Request} {chronicle : Chronicle} {execution : StoredExecution} {commit : Commit}

/-- A commit that a run waits for records a failure, or leaves the error of the record as it is. -/
theorem Awaits.error_cases
    (h : run.Awaits Works request scope demand commit chronicle execution) :
    (∃ message, demand.purpose.message? = some message ∧ commit.header.status = .failed ∧
      commit.header.error = some message ∧
      ∀ checkpoint ∈ commit.appended, checkpoint.error = some message) ∨
    demand.purpose.message? = none ∧
      (commit.header.status = .completed ∧ commit.header.error = none ∨
        (commit.header.status = .running ∨ commit.header.status = .paused) ∧
          execution.header.status ≠ .completed ∧
          commit.header.error = execution.header.error) := by
  obtain ⟨time, rfl⟩ := h.commit_eq
  have hlegal : run.Legal := by
    obtain ⟨hready, -⟩ | ⟨cause, hstage, -⟩ := h.asked
    · exact hready.legal
    · simp [Legal, hstage]
  rcases h.demands.error_cases hlegal with
    ⟨message, hmessage, hstatus, herror, hcheckpoint⟩ | ⟨hmessage, hwork, hkeeps⟩
  · refine Or.inl ⟨message, hmessage, hstatus, herror, ?_⟩
    intro checkpoint hmem
    exact hcheckpoint checkpoint (Option.mem_toList.mp hmem)
  · refine Or.inr ⟨hmessage, ?_⟩
    obtain ⟨hready, -⟩ | ⟨cause, hstage, -⟩ := h.asked
    · -- The copy of a run at work differs from the record in its context only.
      obtain ⟨context, hcopy⟩ := hready.state_eq
      rcases hkeeps with hcompleted | ⟨hstatus, hopen, herror⟩
      · exact Or.inl hcompleted
      · rw [hcopy] at hopen herror
        exact Or.inr ⟨hstatus, hopen, herror⟩
    · exact absurd hstage (hwork cause)

end Run

/-- The message of the failure recorded last, in a history of records with the newest first. -/
def lastFailure (records : List StoredExecution) : Option String :=
  (records.find? (·.header.status = .failed)).bind (·.header.error)

/-- A record after older ones, of which the newest is first, has the error of the last failure. -/
structure StoredExecution.Blames (execution : StoredExecution) (older : List StoredExecution) :
    Prop where
  error : execution.header.error =
    if execution.header.status = .completed then none else lastFailure (execution :: older)
  pending : execution.header.status = .pending → execution.header.error = none
  failed : execution.header.status = .failed → execution.header.error.isSome = true

namespace StoredExecution

variable {execution before : StoredExecution} {older : List StoredExecution}

theorem blames_new {request : StartRequest} {header : ExecutionHeader} (h : header.IsNew request) :
    Blames ⟨header, []⟩ [] := by
  obtain ⟨_, _, _, rfl⟩ := h
  exact ⟨rfl, fun _ => rfl, fun hfailed => by cases hfailed⟩

/-- A record of a failure blames it, whatever was recorded before. -/
theorem blames_of_failed {message : String} (hstatus : execution.header.status = .failed)
    (herror : execution.header.error = some message) : execution.Blames older := by
  refine ⟨?_, ?_, ?_⟩
  · simp [hstatus, lastFailure]
  · intro hpending
    exact absurd (hstatus.symm.trans hpending) (by simp)
  · intro _
    rw [herror]
    rfl

/-- A record that keeps the error of the one before blames the same failure. -/
theorem Blames.keep (h : before.Blames older)
    (hstatus : execution.header.status = .running ∨ execution.header.status = .paused)
    (hopen : before.header.status ≠ .completed)
    (herror : execution.header.error = before.header.error) :
    execution.Blames (before :: older) := by
  have hlast : lastFailure (execution :: before :: older) = lastFailure (before :: older) := by
    rcases hstatus with hstatus | hstatus <;> simp [lastFailure, hstatus]
  have herror : execution.header.error = lastFailure (execution :: before :: older) := by
    rw [herror, h.error, if_neg hopen, hlast]
  refine ⟨?_, ?_, ?_⟩
  · rw [if_neg ?_]
    · exact herror
    · rcases hstatus with hstatus | hstatus <;> simp [hstatus]
  · intro hpending
    rcases hstatus with hstatus | hstatus <;> cases hstatus.symm.trans hpending
  · intro hfailed
    rcases hstatus with hstatus | hstatus <;> cases hstatus.symm.trans hfailed

/-- Whatever a run makes durable, the record blames the last failure. -/
theorem Blames.extend {Works : Request → Scope → Run → Chronicle → StoredExecution → Prop}
    {request : Request} {scope : Scope} {run : Run} {demand : Run.Demand} {commit : Commit}
    {chronicle : Chronicle} (h : before.Blames older)
    (hawaits : run.Awaits Works request scope demand commit chronicle before) :
    (before.extend commit).Blames (before :: older) := by
  rcases hawaits.error_cases with
    ⟨message, -, hstatus, herror, -⟩ | ⟨-, ⟨hstatus, herror⟩ | ⟨hstatus, hopen, herror⟩⟩
  · exact blames_of_failed hstatus herror
  · change commit.header.status = .completed at hstatus
    refine ⟨?_, fun _ => herror, ?_⟩
    · exact herror.trans (if_pos hstatus).symm
    · intro hfailed
      cases hstatus.symm.trans hfailed
  · exact h.keep hstatus hopen herror

end StoredExecution

namespace Session

variable {σ : Type} [ExecutionStore σ] [LawfulStore σ] {Kind : σ → Prop}
  {AtRest : Chronicle → StoredExecution → Prop}
  {InHand : Request → Scope → Run → Chronicle → StoredExecution → Prop}
  {session later : Session σ} {id : ExecutionId} {records : List StoredExecution}

/-- A step leaves the record of an execution as it is, creates it, or lets a commit of the run that
has the execution take effect. -/
theorem Orderly.writes (custody : Custody Kind AtRest InHand)
    (h : session.Orderly Kind AtRest InHand) (hstep : session.Step later) (id : ExecutionId) :
    later.stored id = session.stored id ∨
    (session.stored id = none ∧ ∃ request header, header.IsNew request ∧
      later.stored id = some ⟨header, []⟩) ∨
    ∃ task ∈ session.tasks, ∃ scope run flight before,
      task.call = .driving scope run ∧ session.stored id = some before ∧
      InHand task.request scope run (session.chronicles id) before ∧
      run.handle.flight = some flight ∧ flight.outcome = none ∧
      later.stored id = some (before.extend flight.commit) := by
  cases hstep with
  | ask | cancel | register | remove | replace => exact Or.inl rfl
  | wait time => exact Or.inl (by unfold stored; rw [Host.waitUntil_store])
  | @advance task others call engine host hperm hnext =>
      have htask : task ∈ session.tasks := hperm.mem_iff.mpr List.mem_cons_self
      rcases Call.next?_store hnext with
        hstore | ⟨request, header, -, hnew, hstore⟩ | ⟨scope, run, run', cancelled, hcall, -, hlands⟩
      · exact Or.inl (congrArg (LawfulStore.stored · id) hstore)
      · unfold stored
        simp only [hstore]
        cases hinsert : (ExecutionStore.insert session.host.store header).1 with
        | error cause => exact Or.inl (congrFun (LawfulStore.insert_error hinsert) id)
        | ok _ =>
            obtain ⟨habsent, hafter⟩ := LawfulStore.insert_ok hinsert
            rw [hafter]
            by_cases hid : id = header.id
            · subst hid
              exact Or.inr (Or.inl ⟨habsent, request, header, hnew, Function.update_self ..⟩)
            · exact Or.inl (Function.update_of_ne hid _ _)
      · obtain ⟨before, hstored, hinHand⟩ := h.driven htask hcall
        obtain ⟨-, after, hafter, -⟩ :=
          custody.land (custody.attend cancelled hinHand) h.kind hstored hlands
        change LawfulStore.stored host.store = Function.update session.stored run.id _ at hafter
        by_cases hid : id = run.id
        · subst hid
          obtain ⟨hflight, houtcome, hstore⟩ := hlands
          rename_i flight
          unfold stored at hstored hafter ⊢
          simp only [hstore] at hafter ⊢
          cases hresult : (ExecutionStore.commit session.host.store flight.commit).1 with
          | error cause => exact Or.inl (congrFun (LawfulStore.commit_error hresult) _)
          | ok _ =>
              obtain ⟨found, hfound, -, hwritten⟩ := LawfulStore.commit_ok hresult
              by_cases hown : run.id = flight.commit.header.id
              · rw [← hown] at hfound hwritten
                cases hstored.symm.trans hfound
                refine Or.inr (Or.inr ⟨task, htask, scope, run, flight, before, hcall, hstored,
                  hinHand, hflight, houtcome, ?_⟩)
                rw [hwritten]
                exact Function.update_self ..
              · refine Or.inl ?_
                rw [hwritten]
                exact Function.update_of_ne hown _ _
        · refine Or.inl ?_
          unfold stored
          rw [hafter]
          exact Function.update_of_ne hid _ _

/-- A history of calls, and the records that an execution has had in it, newest first. -/
inductive History (id : ExecutionId) : Session σ → List StoredExecution → Prop
  | initial {engine : Engine} {host : Host σ} (hidle : engine.active = [])
      (hempty : ∀ id, LawfulStore.stored host.store id = none) : History id { engine, host } []
  | keep {session later : Session σ} {records : List StoredExecution}
      (h : History id session records) (hstep : session.Step later)
      (hsame : later.stored id = session.stored id) : History id later records
  | write {session later : Session σ} {records : List StoredExecution}
      {execution : StoredExecution} (h : History id session records)
      (hstep : session.Step later) (hnew : later.stored id ≠ session.stored id)
      (hstored : later.stored id = some execution) : History id later (execution :: records)

namespace History

theorem reachable (h : History id session records) : Reachable (fun _ => True) session := by
  induction h with
  | initial hidle hempty => exact .initial hidle hempty trivial
  | keep _ hstep _ ih => exact ih.step hstep
  | write _ hstep _ _ ih => exact ih.step hstep

/-- The newest record is the one that is stored. -/
theorem stored_eq (h : History id session records) : session.stored id = records.head? := by
  induction h with
  | initial _ hempty => exact hempty id
  | keep _ _ hsame ih => exact hsame.trans ih
  | write _ _ _ hstored _ => exact hstored

/-- What a step makes of the record: a commit that takes effect was asked for on the newest one. -/
theorem writes (h : History id session records) (hstep : session.Step later) :
    later.stored id = session.stored id ∨
    (records = [] ∧ ∃ request header, header.IsNew request ∧
      later.stored id = some ⟨header, []⟩) ∨
    ∃ before older commit, records = before :: older ∧
      later.stored id = some (before.extend commit) ∧
      ∃ request scope run demand chronicle,
        Run.Awaits (fun _ _ run _ execution => run.Guarded execution) request scope run demand
          commit chronicle before := by
  have custody : Custody (fun _ : σ => True) _ _ :=
    once_conduct.custody (fun _ => trivial) fun _ => trivial
  obtain hkept | ⟨hnone, hcreated⟩ | ⟨task, -, scope, run, flight, before, -, hbefore, hinHand,
      hflight, houtcome, hafter⟩ := (h.reachable.orderly custody).writes custody hstep id
  · exact Or.inl hkept
  · exact Or.inr (Or.inl ⟨List.head?_eq_none_iff.mp (h.stored_eq.symm.trans hnone), hcreated⟩)
  · obtain ⟨older, rfl⟩ := List.head?_eq_some_iff.mp (h.stored_eq.symm.trans hbefore)
    obtain ⟨asked, demand, hawaits, -⟩ := hinHand.2.2.flying hflight houtcome
    exact Or.inr (Or.inr ⟨before, older, flight.commit, rfl, hafter, _, _, asked, demand, _,
      hawaits⟩)

/-- Records are not lost. -/
theorem step (h : History id session records) (hstep : session.Step later) :
    ∃ newer, History id later (newer ++ records) := by
  by_cases hsame : later.stored id = session.stored id
  · exact ⟨[], h.keep hstep hsame⟩
  · obtain hkept | ⟨-, _, _, -, hstored⟩ | ⟨_, _, _, -, hstored, -⟩ := h.writes hstep
    · exact absurd hkept hsame
    · exact ⟨[_], h.write hstep hsame hstored⟩
    · exact ⟨[_], h.write hstep hsame hstored⟩

theorem play (fuel : Nat) (h : History id session records) :
    ∃ newer, History id (session.play fuel) (newer ++ records) := by
  induction fuel generalizing session records with
  | zero => exact ⟨[], h⟩
  | succ fuel ih =>
      rw [play_succ]
      rcases step_play session with hsame | hstep
      · rw [hsame]
        exact ih h
      · obtain ⟨newer, hnewer⟩ := h.step hstep
        obtain ⟨newest, hnewest⟩ := ih hnewer
        exact ⟨newest ++ newer, by rwa [List.append_assoc]⟩

theorem ask (h : History id session records) (request : Request) :
    History id (session.ask request) records :=
  h.keep (.ask request) rfl

/-- Every record blames the failure recorded last. -/
theorem blames (h : History id session records) :
    ∀ execution older, execution :: older <:+ records → execution.Blames older := by
  induction h with
  | initial =>
      intro execution older hsuffix
      cases List.suffix_nil.mp hsuffix
  | keep _ _ _ ih => exact ih
  | @write session later records written h hstep hnew hstored ih =>
      intro execution older hsuffix
      rcases List.suffix_cons_iff.mp hsuffix with hfirst | hsuffix
      · cases hfirst
        obtain hkept | ⟨rfl, request, header, hheader, hafter⟩ |
          ⟨before, older, commit, rfl, hafter, _, _, _, _, _, hawaits⟩ := h.writes hstep
        · exact absurd hkept hnew
        · cases hstored.symm.trans hafter
          exact StoredExecution.blames_new hheader
        · cases hstored.symm.trans hafter
          exact (ih before older (List.suffix_refl _)).extend hawaits
      · exact ih execution older hsuffix

/-- In a history of calls, every record of an execution has the error of the failure recorded last,
with or without a run in between, unless it is completed and has none; a failed one has an error, a
pending one has none. Whatever a run waits to make durable records a failure exactly if the run met
one, under its message. -/
theorem error_eq (h : History id session records) :
    (∀ execution older, execution :: older <:+ records →
      execution.header.error = (if execution.header.status = .completed then none
        else lastFailure (execution :: older)) ∧
      (execution.header.status = .pending → execution.header.error = none) ∧
      (execution.header.status = .failed → execution.header.error.isSome = true)) ∧
    ∀ task ∈ session.tasks, ∀ scope run purpose flight, task.call = .driving scope run →
      run.stage = .committing purpose → run.handle.flight = some flight →
      flight.outcome = none →
      (flight.commit.header.status = .failed ↔ purpose.message?.isSome = true) ∧
      ∀ message, purpose.message? = some message →
        flight.commit.header.error = some message ∧
        ∀ checkpoint ∈ flight.commit.appended, checkpoint.error = some message := by
  constructor
  · intro execution older hsuffix
    obtain ⟨herror, hpending, hfailed⟩ := h.blames execution older hsuffix
    exact ⟨herror, hpending, hfailed⟩
  · intro task htask scope run purpose flight hcall hstage hflight houtcome
    have custody : Custody (fun _ : σ => True) _ _ :=
      once_conduct.custody (fun _ => trivial) fun _ => trivial
    obtain ⟨execution, -, -, -, hkeeps⟩ := (h.reachable.orderly custody).driven htask hcall
    obtain ⟨asked, demand, hawaits, hrun | ⟨cause, hsettling, -⟩⟩ := hkeeps.flying hflight houtcome
    · have hpurpose : demand.purpose = purpose := by
        rw [hrun] at hstage
        cases hstage
        rfl
      subst hpurpose
      rcases hawaits.error_cases with
        ⟨message, hmessage, hstatus, herror, hcheckpoint⟩ | ⟨hmessage, hwork⟩
      · refine ⟨?_, ?_⟩
        · simp [hmessage, hstatus]
        · intro other hother
          cases hmessage.symm.trans hother
          exact ⟨herror, hcheckpoint⟩
      · refine ⟨?_, ?_⟩
        · rcases hwork with ⟨hstatus, -⟩ | ⟨hstatus | hstatus, -⟩ <;> simp [hmessage, hstatus]
        · intro message hother
          cases hmessage.symm.trans hother
    · cases hstage.symm.trans hsettling

end History

end Session

/-- A node that fails, and then a pause. -/
def Sample.relapse : Workflow where
  id := "relapse"
  nodes := [⟨"broken", "test.fail", none, [("text", .string "out of order")], none⟩,
    ⟨"gate", "test.wait", none, [], none⟩]
  connections := [⟨"broken", "gate", defaultPort, defaultPort⟩]

/-- A run that fails, and one that goes on after the failure up to the pause. -/
def Sample.relapsed : Session (FaultyStore MemoryStore) :=
  ((((session {}).ask (start relapse)).play 60).ask (resume relapse)).play 60

theorem Sample.relapsed_stored : (relapsed.stored firstId).map (fun execution =>
    (execution.header.status, execution.header.error, execution.nodeIds)) =
      some (.paused, some "Execution failed: out of order", ["broken", "gate"]) := by
  decide

namespace Session

/-- The failure is blamed on, also after the run that went on. -/
theorem History.error_eq_of_relapse :
    ∃ execution older, History Sample.firstId Sample.relapsed (execution :: older) ∧
      execution.header.status = .paused ∧ execution.header.error = lastFailure (execution :: older) ∧
      execution.header.error = some "Execution failed: out of order" := by
  have hfresh : History Sample.firstId (Sample.session {}) [] := .initial rfl fun _ => rfl
  obtain ⟨_, hfailed⟩ := (hfresh.ask (Sample.start Sample.relapse)).play 60
  obtain ⟨newer, hrelapsed⟩ := (hfailed.ask (Sample.resume Sample.relapse)).play 60
  obtain ⟨execution, hstored, htold⟩ := Option.map_eq_some_iff.mp Sample.relapsed_stored
  simp only [Prod.mk.injEq] at htold
  obtain ⟨hstatus, herror, -⟩ := htold
  obtain ⟨older, hrecords⟩ := List.head?_eq_some_iff.mp (hrelapsed.stored_eq.symm.trans hstored)
  rw [hrecords] at hrelapsed
  refine ⟨execution, older, hrelapsed, hstatus, ?_, herror⟩
  have heq := ((History.error_eq hrelapsed).1 execution older (List.suffix_refl _)).1
  rwa [hstatus, if_neg (by simp)] at heq

/-- An error does not tell that an execution failed, even in a store that refuses nothing. -/
theorem error_of_paused :
    ¬∀ session : Session (FaultyStore MemoryStore), Reachable LawfulStore.Reliable session →
      ∀ id execution, session.stored id = some execution →
        (execution.header.error.isSome = true ↔ execution.header.status = .failed) := by
  intro hclaim
  have hfailed : Reachable LawfulStore.Reliable
      (((Sample.session {}).ask (Sample.start Sample.relapse)).play 60) :=
    Sample.reachable_start ⟨rfl, rfl, trivial⟩ Sample.relapse 60
  have hrelapsed := (hfailed.ask (Sample.resume Sample.relapse)).play 60
  obtain ⟨execution, hstored, htold⟩ := Option.map_eq_some_iff.mp Sample.relapsed_stored
  simp only [Prod.mk.injEq] at htold
  obtain ⟨hstatus, herror, -⟩ := htold
  have hiff := hclaim _ hrelapsed Sample.firstId execution hstored
  simp [hstatus, herror] at hiff

end Session

end WorkflowEngine
