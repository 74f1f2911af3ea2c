import WorkflowEngine.Proofs.Run.Tale
import WorkflowEngine.Proofs.Session.Once
import WorkflowEngine.Proofs.Session.Passage
import WorkflowEngine.Proofs.Session.Restart

/-!
What is published about an execution while a call runs it. Only its own run speaks of it, and does so
in a tale that is true at any time: when a node is told to have completed, paused or failed, the stored
log has its checkpoint already.

This holds in every lawful store, for histories in which calls are dropped and processes stop before
the call begins to run the execution.
-/
namespace WorkflowEngine

namespace Call

variable {σ : Type} [ExecutionStore σ] {call call' : Call} {engine engine' : Engine}
  {host host' : Host σ}

theorem create_bus (workflowId : WorkflowId) (userId : String) (context : Context) (steps : Nat)
    (host : Host σ) :
    (Handle.create workflowId userId context steps host).2.bus = host.bus := by
  unfold Handle.create
  simp only [Host.stamp, Host.drawId]
  split <;> rfl

/-- What a call publishes is about the execution that it runs. -/
theorem next?_speaks (h : call.next? engine host = some (call', engine', host')) :
    ∃ told : List ExecutionEvent, host'.bus.sent = told.reverse ++ host.bus.sent ∧
      ∀ event ∈ told, call'.holds? = some event.executionId := by
  have hsilent : host'.bus = host.bus → ∃ told : List ExecutionEvent, host'.bus.sent = told.reverse ++ host.bus.sent ∧
      ∀ event ∈ told, call'.holds? = some event.executionId := by
    intro hbus
    refine ⟨[], ?_, by simp⟩
    rw [hbus]
    rfl
  cases call with
  | starting request =>
      simp only [next?] at h
      split at h
      · cases h
        exact hsilent rfl
      · have hbus := create_bus request.workflow.id request.userId request.context
          (engine.totalSteps request.workflow) host
        split at h <;> rename_i hcreate <;> rw [hcreate] at hbus <;> cases h <;> exact hsilent hbus
  | created request state =>
      simp only [next?] at h
      split at h
      · cases h
        exact hsilent rfl
      · cases h
        exact ⟨[_], rfl, by simp [holds?, ExecutionEvent.executionId]; rfl⟩
  | resuming request =>
      simp only [next?] at h
      split at h <;> cases h <;> exact hsilent rfl
  | loading request =>
      simp only [next?] at h
      split at h <;> cases h <;> exact hsilent rfl
  | loadingLog request header =>
      simp only [next?] at h
      split at h
      · cases h
        exact hsilent rfl
      · split at h
        · cases h
          exact hsilent rfl
        · cases h
          exact ⟨[_], rfl, by simp [holds?, ExecutionEvent.executionId]; rfl⟩
  | ended outcome => cases h
  | driving scope run =>
      rcases driving_next h with ⟨rfl, -⟩ | ⟨run', cancelled, rfl, hopen, hmoves⟩
      · exact hsilent rfl
      · obtain ⟨told, hsent, hspeaks⟩ := Run.next?_speaks hopen hmoves
        refine ⟨told, hsent, fun event hevent => ?_⟩
        rw [hspeaks.executionId event hevent]
        rfl

/-- A call that begins to run an execution says so, and leaves the store alone. -/
theorem next?_begins {scope : Scope} {run : Run} (hcall : call.running? = none)
    (h : call.next? engine host = some (.driving scope run, engine', host')) :
    run.stage = .entering ∧ host'.store = host.store ∧ ∃ time, host'.bus.sent =
      .workflowStarted run.id scope.workflow.id (run.state.status != .pending) time ::
        host.bus.sent := by
  cases call with
  | starting request =>
      simp only [next?] at h
      split at h
      · cases h
      · split at h <;> cases h
  | created request state =>
      simp only [next?] at h
      split at h <;> cases h
      exact ⟨rfl, rfl, _, rfl⟩
  | resuming request =>
      simp only [next?] at h
      split at h <;> cases h
  | loading request =>
      simp only [next?] at h
      split at h <;> cases h
  | loadingLog request header =>
      simp only [next?] at h
      split at h
      · cases h
      · split at h <;> cases h
        exact ⟨rfl, rfl, _, rfl⟩
  | ended outcome => cases h
  | driving scope run => cases hcall

end Call

namespace Session

variable {σ : Type} [ExecutionStore σ] {session later : Session σ} {id : ExecutionId}

/-- What was published about an execution, oldest first. -/
def about (session : Session σ) (id : ExecutionId) : List ExecutionEvent :=
  session.host.bus.sent.reverse.filter (·.executionId = id)

omit [ExecutionStore σ] in
theorem about_append (told : List ExecutionEvent)
    (hsent : later.host.bus.sent = told.reverse ++ session.host.bus.sent) :
    later.about id = session.about id ++ told.filter (·.executionId = id) := by
  unfold about
  rw [hsent]
  simp

/-- A call that has an execution at hand begins to run it. -/
inductive Begins (session : Session σ) (request : Request) (scope : Scope) (run : Run) :
    Session σ → Prop
  | intro {call : Call} {others : List Task} {engine : Engine} {host : Host σ}
      (hperm : session.tasks.Perm (⟨request, call⟩ :: others)) (hcall : call.running? = none)
      (hnext : call.next? session.engine session.host = some (.driving scope run, engine, host)) :
      Begins session request scope run
        { engine, host
          tasks := ⟨request, .driving scope run⟩ :: others
          chronicles := session.note ⟨request, call⟩ (.driving scope run) }

namespace Begins

variable {request : Request} {scope : Scope} {run : Run}

theorem step (h : session.Begins request scope run later) : session.Step later := by
  obtain ⟨hperm, _, hnext⟩ := h
  exact .advance hperm hnext

theorem mem_tasks (h : session.Begins request scope run later) :
    ⟨request, .driving scope run⟩ ∈ later.tasks := by
  obtain ⟨_, _, _⟩ := h
  exact List.mem_cons_self

/-- The first that is published is the start of the run. -/
theorem about_eq (h : session.Begins request scope run later) :
    ∃ time, later.about run.id = session.about run.id ++
      [.workflowStarted run.id scope.workflow.id (run.state.status != .pending) time] := by
  obtain ⟨_, hcall, hnext⟩ := h
  obtain ⟨-, -, time, hsent⟩ := Call.next?_begins hcall hnext
  refine ⟨time, ?_⟩
  rw [about_append [_] hsent]
  simp [ExecutionEvent.executionId]

/-- The call made last takes a step by which it begins to run an execution. -/
theorem of_play (hbefore : session.tasks.head?.bind (·.call.running?) = none)
    (hafter : (session.play 1).tasks.head?.bind (·.call.running?) = some id) :
    ∃ request scope run, run.id = id ∧ session.Begins request scope run (session.play 1) := by
  obtain ⟨engine, host, tasks, chronicles⟩ := session
  cases tasks with
  | nil => cases hafter
  | cons task others =>
      obtain ⟨request, call⟩ := task
      simp only [play] at hafter ⊢
      cases hnext : call.next? engine host with
      | some next =>
          obtain ⟨after, engine', host'⟩ := next
          simp only [hnext] at hafter ⊢
          cases after with
          | driving scope run =>
              cases hafter
              exact ⟨request, scope, run, rfl, .intro (List.Perm.refl _) hbefore hnext⟩
          | starting | created | resuming | loading | loadingLog | ended => cases hafter
      | none =>
          simp only [hnext] at hafter
          cases hwakes : call.wakesAt? with
          | some time =>
              simp only [hwakes] at hafter
              exact absurd (hbefore.symm.trans hafter) (by simp)
          | none =>
              simp only [hwakes] at hafter
              exact absurd (hbefore.symm.trans hafter) (by simp)

theorem stage_eq (h : session.Begins request scope run later) : run.stage = .entering := by
  obtain ⟨_, hcall, hnext⟩ := h
  exact (Call.next?_begins hcall hnext).1

theorem store_eq (h : session.Begins request scope run later) :
    later.host.store = session.host.store := by
  obtain ⟨_, hcall, hnext⟩ := h
  exact (Call.next?_begins hcall hnext).2.1

end Begins

variable [LawfulStore σ] {Rest : Chronicle → StoredExecution → Prop}
  {Works : Request → Scope → Run → Chronicle → StoredExecution → Prop}
  {Done : Request → Scope → ExecutionStatus → Chronicle → StoredExecution → Prop}
  {request : Request} {scope : Scope} {run run' : Run} {execution : StoredExecution}
  {before : List Checkpoint} {tale : Tale} {told : List ExecutionEvent}

/-- What commits keep is kept by every run of a session. -/
abbrev Conducted (Rest : Chronicle → StoredExecution → Prop)
    (Works : Request → Scope → Run → Chronicle → StoredExecution → Prop)
    (Done : Request → Scope → ExecutionStatus → Chronicle → StoredExecution → Prop)
    (session : Session σ) : Prop :=
  session.Orderly (fun _ => True)
    (fun chronicle execution => execution.Numbered ∧ Rest chronicle execution)
    fun request scope run chronicle execution => execution.Numbered ∧
      Rest chronicle execution ∧ run.Keeps Works Done request scope chronicle execution

/-- When the commit of a run takes effect, or is refused, the tale is as true as before. -/
private theorem tells_landed {host' : Host σ} {chronicle : Chronicle} {cancelled : Bool}
    (hkeeps : Run.Keeps Works Done request scope { run with cancelled } chronicle execution)
    (hstored : session.stored run.id = some execution)
    (htale : tale.Of scope { run with cancelled } before execution.log)
    (hlands : Run.Lands { run with cancelled } session.host run' host')
    (hspeaks : Run.Speaks { run with cancelled } run' told) :
    told = [] ∧ ∃ after, LawfulStore.stored host'.store run.id = some after ∧
      tale.Of scope run' before after.log := by
  obtain ⟨hflight, houtcome, hstore⟩ := hlands
  rename_i flight
  obtain ⟨asked, demand, hawaits, hrun⟩ := hkeeps.flying hflight houtcome
  have hstage : (∃ purpose, run.stage = .committing purpose) ∨
      ∃ cause, run.stage = .settling cause := by
    obtain hrun | ⟨cause, hstage, -⟩ := hrun
    · exact Or.inl ⟨demand.purpose, congrArg Run.stage hrun⟩
    · exact Or.inr ⟨cause, hstage⟩
  refine ⟨hspeaks.silent hstage, ?_⟩
  have hid : run.id = flight.commit.header.id :=
    (LawfulStore.stored_id hstored).symm.trans hawaits.id_eq.symm
  rw [hstore]
  unfold stored at hstored
  cases hresult : (ExecutionStore.commit session.host.store flight.commit).1 with
  | error cause =>
      rw [LawfulStore.commit_error hresult]
      exact ⟨execution, hstored, htale.land hflight houtcome hstage (Or.inr ⟨⟨cause, rfl⟩, rfl⟩)⟩
  | ok _ =>
      obtain ⟨found, hfound, -, hafter⟩ := LawfulStore.commit_ok hresult
      rw [← hid, hstored] at hfound
      cases hfound
      rw [hafter, hid]
      exact ⟨_, Function.update_self .., htale.land hflight houtcome hstage (Or.inl ⟨rfl, rfl⟩)⟩

/-- What a run says in one step is true. -/
private theorem tells_moved (conduct : Conduct Rest Works Done) {host' : Host σ}
    {chronicle : Chronicle} {cancelled : Bool} (hstarted : run.startedAt ≤ session.host.now)
    (hnumbered : execution.Numbered) (hrest : Rest chronicle execution)
    (hkeeps : run.Keeps Works Done request scope chronicle execution)
    (hstored : session.stored run.id = some execution)
    (htale : tale.Of scope run before execution.log)
    (hopen : Run.result? { run with cancelled } = none)
    (hmoves : Run.next? { run with cancelled } scope session.host = some (run', host')) :
    ∃ (told : List ExecutionEvent) (tale' : Tale) (after : StoredExecution), run'.id = run.id ∧
      host'.bus.sent = told.reverse ++ session.host.bus.sent ∧
      (∀ event ∈ told, event.executionId = run.id) ∧
      tale'.events run.id = tale.events run.id ++ told ∧
      LawfulStore.stored host'.store run.id = some after ∧
      tale'.Of scope run' before after.log := by
  have custody : Custody (fun _ : σ => True) _ _ :=
    conduct.custody (fun _ => trivial) fun _ => trivial
  have hattend := custody.attend cancelled ⟨hnumbered, hrest, hkeeps⟩
  have htale := htale.attend cancelled
  obtain ⟨told, hsent, hspeaks⟩ := Run.next?_speaks hopen hmoves
  have hown := hspeaks.executionId
  rcases (Run.next?_cases hmoves).2 with hlands | ⟨hstore, hact⟩
  · obtain ⟨hid, -⟩ := custody.land hattend trivial hstored hlands
    obtain ⟨rfl, after, hafter, htale'⟩ :=
      tells_landed hattend.2.2 hstored htale hlands hspeaks
    exact ⟨[], tale, after, hid, hsent, by simp, by simp, hafter, htale'⟩
  · obtain ⟨hid, -⟩ := custody.act hattend trivial hstarted hstored hact
    have hid : run'.id = run.id := hid
    obtain ⟨tale', hevents, htale'⟩ := htale.act hopen (custody.legal hattend) hact hspeaks
    rw [hid] at hevents hown
    refine ⟨told, tale', execution, hid, hsent, hown, hevents, ?_, htale'⟩
    rw [hstore]
    exact hstored

/-- What is published about an execution in a step through which a call runs it is the next part of a
true tale. -/
theorem Orderly.tells (conduct : Conduct Rest Works Done)
    (h : session.Conducted Rest Works Done)
    (hstep : session.Step later) (htask : ⟨request, .driving scope run⟩ ∈ session.tasks)
    (hstored : session.stored run.id = some execution)
    (htale : tale.Of scope run before execution.log) (hdrives : later.Drives run.id) :
    ∃ (run' : Run) (tale' : Tale) (after : StoredExecution) (told : List ExecutionEvent),
      ⟨request, .driving scope run'⟩ ∈ later.tasks ∧ run'.id = run.id ∧
      later.stored run.id = some after ∧ tale'.Of scope run' before after.log ∧
      tale'.events run.id = tale.events run.id ++ told ∧
      later.about run.id = session.about run.id ++ told := by
  have custody : Custody (fun _ : σ => True) _ _ :=
    conduct.custody (fun _ => trivial) fun _ => trivial
  rcases h.follow custody hstep htask hdrives with
    ⟨run', cancelled, hrun, hopen, hmoves⟩ | ⟨hrun, hidle⟩
  · obtain ⟨found, hfound, hnumbered, hrest, hkeeps⟩ := h.driven htask rfl
    cases hstored.symm.trans hfound
    have hstarted : run.startedAt ≤ session.host.now := (h.fits _ htask).1
    obtain ⟨told, tale', after, hid, hsent, hown, hevents, hafter, htale'⟩ :=
      tells_moved conduct hstarted hnumbered hrest hkeeps hstored htale hopen hmoves
    refine ⟨run', tale', after, told, hrun, hid, hafter, htale', hevents, ?_⟩
    rw [about_append told hsent, List.filter_eq_self.mpr]
    intro event hevent
    exact decide_eq_true (hown event hevent)
  · refine ⟨run, tale, execution, [], hrun, rfl, ?_, htale, (List.append_nil _).symm, ?_⟩
    · rcases hidle with (hhost | ⟨time, hhost⟩) | ⟨task, htask, call, hnext, hother, -⟩
      · unfold stored
        rw [hhost]
        exact hstored
      · unfold stored
        rw [hhost, Host.waitUntil_store]
        exact hstored
      · exact h.frame custody htask hnext hother hstored
    · rw [List.append_nil]
      rcases hidle with (hhost | ⟨time, hhost⟩) | ⟨task, -, call, hnext, -, hother⟩
      · unfold about
        rw [hhost]
      · unfold about
        rw [hhost, Host.waitUntil_bus]
      · obtain ⟨told, hsent, hown⟩ := Call.next?_speaks hnext
        rw [about_append told hsent, List.filter_eq_nil_iff.mpr, List.append_nil]
        intro event hevent hsame
        exact hother ((hown event hevent).trans (congrArg some (of_decide_eq_true hsame)))

/-- What is published about an execution while a call runs it is a true tale. -/
theorem Driven.tells (conduct : Conduct Rest Works Done)
    (h : session.Conducted Rest Works Done)
    (htask : ⟨request, .driving scope run⟩ ∈ session.tasks) (hstage : run.stage = .entering)
    (hstored : session.stored run.id = some execution) (hdriven : Driven run.id session later) :
    ∃ (run' : Run) (tale : Tale) (after : StoredExecution),
      ⟨request, .driving scope run'⟩ ∈ later.tasks ∧ later.stored run.id = some after ∧
      tale.Of scope run' execution.log after.log ∧
      later.about run.id = session.about run.id ++ tale.events run.id := by
  have custody : Custody (fun _ : σ => True) _ _ :=
    conduct.custody (fun _ => trivial) fun _ => trivial
  have hkept : later.Conducted Rest Works Done ∧
      ∃ (run' : Run) (tale : Tale) (after : StoredExecution),
        ⟨request, .driving scope run'⟩ ∈ later.tasks ∧ run'.id = run.id ∧
        later.stored run.id = some after ∧ tale.Of scope run' execution.log after.log ∧
        later.about run.id = session.about run.id ++ tale.events run.id := by
    induction hdriven with
    | refl =>
        refine ⟨h, run, {}, execution, htask, rfl, hstored, Tale.of_entering hstage, ?_⟩
        simp [Tale.events]
    | tail _ hstep ih =>
        obtain ⟨horderly, run', tale, after, htask', hid, hstored', htale, hevents⟩ := ih
        obtain ⟨hstep, hdrives⟩ := hstep
        rw [← hid] at hstored' hdrives
        obtain ⟨next, tale', last, told, hnext, hid', hlast, htale', hgrows, hsaid⟩ :=
          horderly.tells conduct hstep htask' hstored' htale hdrives
        rw [hid] at hlast hgrows hsaid
        refine ⟨horderly.step custody hstep, next, tale', last, hnext, hid'.trans hid, hlast,
          htale', ?_⟩
        rw [hsaid, hevents, hgrows, List.append_assoc]
  obtain ⟨-, run', tale, after, htask', -, hstored', htale, hevents⟩ := hkept
  exact ⟨run', tale, after, htask', hstored', htale, hevents⟩

/-- From the moment a call begins to run an execution, after any history, the events about the execution
are at any time one start of the run and the tale of its run so far. Every closing event in it has its
checkpoint in the stored log already, in the order of the log and right behind the log that the run
found. A node is told to have failed without a start only where it cannot be called. The tale ends when
the run is over, with one end of the run, and when the call returns nothing is added. -/
theorem Survives.reports {begun : Session σ} (h : Survives (fun _ => True) session)
    (hbegins : session.Begins request scope run begun) (hdriven : Driven run.id begun later) :
    ∃ (run' : Run) (tale : Tale) (earlier execution : StoredExecution) (told : List Checkpoint)
        (time : Timestamp),
      ⟨request, .driving scope run'⟩ ∈ later.tasks ∧
      session.stored run.id = some earlier ∧ later.stored run.id = some execution ∧
      later.about run.id = session.about run.id ++
        .workflowStarted run.id scope.workflow.id (run.state.status != .pending) time ::
          tale.events run.id ∧
      List.Forall₂ Tale.Verdict.Attests tale.verdicts told ∧
      earlier.log ++ told <+: execution.log ∧
      (∀ nodeId message time, tale.last = some (.missing nodeId message time) →
        scope.Lacks nodeId) ∧
      tale.ending.map (fun ending => (ending.status, ending.error)) =
        run'.result?.map (fun result => (run'.state.status, Run.complaint? result)) ∧
      ∀ result engine host, (Call.driving scope run').next? later.engine later.host =
          some (.ended (.ok result), engine, host) →
        host = later.host ∧ tale.ending.isSome = true := by
  have custody : Custody (fun _ : σ => True) _ _ :=
    once_conduct.custody (fun _ => trivial) fun _ => trivial
  have hbegun : begun.Conducted _ _ _ :=
    (Survives.orderly custody (fun hinHand => ⟨hinHand.1, hinHand.2.1⟩) h).step custody hbegins.step
  obtain ⟨earlier, hearlier, -⟩ := hbegun.driven hbegins.mem_tasks rfl
  obtain ⟨time, habout⟩ := hbegins.about_eq
  obtain ⟨run', tale, execution, htask, hstored, htale, hevents⟩ :=
    hdriven.tells once_conduct hbegun hbegins.mem_tasks hbegins.stage_eq hearlier
  obtain ⟨told, hattests, hlog⟩ := htale.attested
  refine ⟨run', tale, earlier, execution, told, time, htask, ?_, hstored, ?_, hattests,
    hlog.isPrefix, htale.missing, htale.ending, ?_⟩
  · unfold stored at hearlier ⊢
    rwa [hbegins.store_eq] at hearlier
  · rw [hevents, habout, List.append_assoc]
    rfl
  · intro result engine host hreturns
    obtain ⟨hhost, _, _, outcome, ⟨⟩, hstage, -⟩ := Call.returned hreturns
    have hover := congrArg Option.isSome htale.ending
    simp only [Option.isSome_map, Run.result?, hstage, Option.isSome_some] at hover
    exact ⟨hhost, hover⟩

end Session

/-- A run that comes to a pause, after some steps of its call. -/
def Sample.pausing (steps : Nat) : Session (FaultyStore MemoryStore) :=
  ((session {}).ask (start gated)).play steps

/-- Before the call begins to run the execution. -/
theorem Sample.pausing_created :
    ((pausing 1).about firstId).isEmpty = true ∧
      ((pausing 1).stored firstId).map (·.nodeIds) = some [] ∧
      (pausing 1).tasks.head?.bind (·.call.running?) = none ∧
      ((pausing 1).play 1).tasks.head?.bind (·.call.running?) = some firstId := by
  decide

/-- When the run is over and the call has not returned. -/
theorem Sample.pausing_over :
    ((pausing 13).stored firstId).map (·.nodeIds) = some ["first", "gate"] ∧
      (pausing 13).tasks.all (fun task =>
        match task.call with
        | .driving _ run => run.result?.isSome
        | _ => false) = true := by
  decide

namespace Session

/-- Two nodes have a checkpoint, and the tale has come to its end. -/
theorem Survives.reports_of_pause :
    ∃ (scope : Scope) (resumed : Bool) (time : Timestamp) (tale : Tale) (told : List Checkpoint)
        (execution : StoredExecution),
      (Sample.pausing 13).about Sample.firstId =
        .workflowStarted Sample.firstId scope.workflow.id resumed time ::
          tale.events Sample.firstId ∧
      (Sample.pausing 13).stored Sample.firstId = some execution ∧
      execution.nodeIds = ["first", "gate"] ∧
      List.Forall₂ Tale.Verdict.Attests tale.verdicts told ∧ told <+: execution.log ∧
      tale.ending.isSome = true := by
  obtain ⟨hquiet, hnew, hidle, hruns⟩ := Sample.pausing_created
  obtain ⟨hnodes, hover⟩ := Sample.pausing_over
  obtain ⟨request, scope, run, hid, hbegins⟩ := Begins.of_play hidle hruns
  have hcreated : Survives (fun _ => True) (Sample.pausing 1) :=
    (Sample.reachable_start trivial Sample.gated 1).survives
  have hdriven : Driven Sample.firstId ((Sample.pausing 1).play 1) (Sample.pausing 13) := by
    have hplayed : Sample.pausing 13 = ((Sample.pausing 1).play 1).play 11 := by
      unfold Sample.pausing
      rw [← play_succ, ← play_succ]
    rw [hplayed]
    exact .play 11 (by decide)
  rw [← hid] at hdriven
  obtain ⟨run', tale, earlier, execution, told, time, htask, hearlier, hstored, habout, hattests,
    hlog, -, hending, -⟩ := Survives.reports hcreated hbegins hdriven
  rw [hid] at hearlier hstored habout
  refine ⟨scope, run.state.status != .pending, time, tale, told, execution, ?_, hstored, ?_, hattests, ?_, ?_⟩
  · rw [habout, List.isEmpty_iff.mp hquiet]
    rfl
  · rw [hstored] at hnodes
    exact Option.some.inj hnodes
  · rw [hearlier] at hnew
    have hempty : earlier.log = [] := List.map_eq_nil_iff.mp (Option.some.inj hnew)
    rwa [hempty, List.nil_append] at hlog
  · have hdone := List.all_eq_true.mp hover _ htask
    have hsome := congrArg Option.isSome hending
    rw [Option.isSome_map, Option.isSome_map] at hsome
    exact hsome.trans hdone

end Session

end WorkflowEngine
