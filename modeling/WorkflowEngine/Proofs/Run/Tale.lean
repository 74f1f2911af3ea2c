import Mathlib.Data.List.Forall2
import WorkflowEngine.Proofs.Run.Speech

/-!
The tale of a run: what it has published about its nodes. A tale is a sequence of episodes, one for
each node that was called and completed; only its last episode may be another one, of a node that has
not answered, that paused, or that failed. The grammar is in the types, so a list of events that comes
from a tale is well formed.

A tale tells the truth about a log if every closing event has its checkpoint there, in order.
-/
namespace WorkflowEngine

namespace Tale

/-- The start of a node, and what the node had to say since. -/
structure Episode where
  nodeId : NodeId
  nodeType : String
  startedAt : Timestamp
  remarks : List (NodeEvent × Timestamp) := []

structure Completion where
  episode : Episode
  step : Nat
  durationMs : Nat
  endedAt : Timestamp

/-- The last node told of, if it is not told to have completed. -/
inductive Last where
  | unfinished (episode : Episode)
  | paused (episode : Episode) (step : Nat) (time : Timestamp)
  | failed (episode : Episode) (message : String) (time : Timestamp)
  /-- A node that could not be called. -/
  | missing (nodeId : NodeId) (message : String) (time : Timestamp)

/-- The end of the run. -/
structure Ending where
  status : ExecutionStatus
  durationMs : Nat
  error : Option String
  time : Timestamp

/-- What a closing event says of a node. -/
inductive Verdict where
  | completed (nodeId : NodeId) (step : Nat)
  | paused (nodeId : NodeId) (step : Nat)
  | failed (nodeId : NodeId) (message : String)

/-- Is this the checkpoint that a closing event tells of? -/
def Verdict.Attests : Verdict → Checkpoint → Prop
  | .completed nodeId step, checkpoint | .paused nodeId step, checkpoint =>
    checkpoint.nodeId = nodeId ∧ checkpoint.stepNumber = step ∧ checkpoint.error = none
  | .failed nodeId message, checkpoint =>
    checkpoint.nodeId = nodeId ∧ checkpoint.error = some message

def Episode.events (id : ExecutionId) (episode : Episode) : List ExecutionEvent :=
  .nodeStarted id episode.nodeId episode.nodeType episode.startedAt ::
    episode.remarks.map fun (event, time) => .nodeEvent id episode.nodeId event time

def Completion.events (id : ExecutionId) (completion : Completion) : List ExecutionEvent :=
  completion.episode.events id ++
    [.nodeCompleted id completion.episode.nodeId completion.step completion.durationMs
      completion.endedAt]

def Completion.verdict (completion : Completion) : Verdict :=
  .completed completion.episode.nodeId completion.step

def Last.events (id : ExecutionId) : Last → List ExecutionEvent
  | .unfinished episode => episode.events id
  | .paused episode step time => episode.events id ++ [.nodePaused id episode.nodeId step time]
  | .failed episode message time =>
    episode.events id ++ [.nodeFailed id episode.nodeId message time]
  | .missing nodeId message time => [.nodeFailed id nodeId message time]

def Last.verdict? : Last → Option Verdict
  | .unfinished _ => none
  | .paused episode step _ => some (.paused episode.nodeId step)
  | .failed episode message _ => some (.failed episode.nodeId message)
  | .missing nodeId message _ => some (.failed nodeId message)

def Ending.event (id : ExecutionId) (ending : Ending) : ExecutionEvent :=
  .workflowFinished id ending.status ending.durationMs ending.error ending.time

end Tale

structure Tale where
  completions : List Tale.Completion := []
  last : Option Tale.Last := none
  ending : Option Tale.Ending := none

namespace Tale

/-- What was published, oldest first. -/
def events (id : ExecutionId) (tale : Tale) : List ExecutionEvent :=
  tale.completions.flatMap (·.events id) ++ tale.last.toList.flatMap (·.events id) ++
    tale.ending.toList.map (·.event id)

/-- The closing events, oldest first. -/
def verdicts (tale : Tale) : List Verdict :=
  tale.completions.map (·.verdict) ++ (tale.last.bind (·.verdict?)).toList

/-- Is the tale at a node that was called and has not answered? -/
def At (tale : Tale) (nodeId : NodeId) : Prop :=
  ∃ episode, tale.last = some (.unfinished episode) ∧ episode.nodeId = nodeId

/-- Is the tale between two nodes? -/
def Between (tale : Tale) : Prop := tale.last = none

end Tale

/-- Is there no such node, or nothing that could be called for it? -/
def Scope.Lacks (scope : Scope) (nodeId : NodeId) : Prop :=
  ∀ node, scope.workflow.node? nodeId = some node → scope.registry.get? node.nodeType = none

namespace Run

/-- What is announced when a commit succeeded that made a header durable with this step. -/
def Purpose.verdict? (step : Nat) : Purpose → Option Tale.Verdict
  | .completion nodeId _ _ => some (.completed nodeId step)
  | .pause nodeId => some (.paused nodeId step)
  | .failure cause => some (.failed cause.nodeId cause.message)
  | _ => none

/-- A commit that appends the checkpoint which is announced afterwards, and no other. -/
def Purpose.Tells (purpose : Purpose) (commit : Commit) : Prop :=
  List.Forall₂ Tale.Verdict.Attests (purpose.verdict? commit.header.currentStep).toList
    commit.appended

theorem Demands.tells {scope : Scope} {run : Run} {demand : Demand} {commit : Commit}
    {time : Timestamp} (h : run.Demands scope demand)
    (hcommit : commit = demand.state.commit demand.checkpoint time) :
    demand.purpose.Tells commit := by
  subst hcommit
  cases h with
  | entry | conclusion | abandonment => exact .nil
  | failure => exact .cons ⟨rfl, rfl⟩ .nil
  | completion => exact .cons ⟨rfl, rfl, rfl⟩ .nil
  | pause => exact .cons ⟨rfl, rfl, rfl⟩ .nil

/-- How far a log is, by the stage of the run, beyond the part of it that was told. -/
def Tells (run : Run) (told log : List Checkpoint) : Prop :=
  match run.stage with
  | .entering | .dispatching | .executing _ => log = told
  | .committing (.abort _) => told <+: log
  | .committing purpose =>
    ∃ flight, run.handle.flight = some flight ∧ purpose.Tells flight.commit ∧
      match flight.outcome with
      | none => log = told
      | some (.ok _) => log = told ++ flight.commit.appended
      | some (.error _) => told <+: log
  | _ => told <+: log

end Run

/-- How far a tale is, by the stage of the run it tells of. -/
def Tale.Follows (tale : Tale) (scope : Scope) (run : Run) : Prop :=
  match run.stage with
  | .entering | .dispatching | .committing .entry | .committing .conclusion => tale.Between
  | .executing call => tale.At call.node.id
  | .committing (.completion nodeId _ _) | .committing (.pause nodeId) => tale.At nodeId
  | .committing (.failure failure) =>
    tale.At failure.nodeId ∨ tale.Between ∧ scope.Lacks failure.nodeId
  | _ => True

/-- The tale of a run on an execution that had the log `before` when it began and now has `log`. -/
structure Tale.Of (tale : Tale) (scope : Scope) (run : Run) (before log : List Checkpoint) :
    Prop where
  follows : tale.Follows scope run
  ending : tale.ending.map (fun ending => (ending.status, ending.error)) =
    run.result?.map fun result => (run.state.status, Run.complaint? result)
  missing : ∀ nodeId message time, tale.last = some (.missing nodeId message time) →
    scope.Lacks nodeId
  attested : ∃ told, List.Forall₂ Verdict.Attests tale.verdicts told ∧ run.Tells (before ++ told) log

namespace Run

variable {run : Run} {told log : List Checkpoint}

/-- What was told is in the log. -/
theorem Tells.isPrefix (h : run.Tells told log) : told <+: log := by
  unfold Tells at h
  split at h
  · exact h ▸ List.prefix_refl log
  · exact h ▸ List.prefix_refl log
  · exact h ▸ List.prefix_refl log
  · exact h
  · obtain ⟨flight, -, -, htells⟩ := h
    split at htells
    · exact htells ▸ List.prefix_refl log
    · exact htells ▸ List.prefix_append _ _
    · exact htells
  · exact h

/-- Between two commits everything in the log was told. -/
theorem Tells.work (h : run.Tells told log)
    (hstage : run.stage = .entering ∨ run.stage = .dispatching ∨ ∃ call, run.stage = .executing call) :
    log = told := by
  rcases hstage with hstage | hstage | ⟨call, hstage⟩ <;> simpa only [Tells, hstage] using h

/-- A commit that is asked for between two commits leaves the log where it was. -/
theorem tells_committing {purpose : Purpose} {flight : Flight}
    (hstage : run.stage = .committing purpose) (hflight : run.handle.flight = some flight)
    (houtcome : flight.outcome = none) (htells : purpose.Tells flight.commit) :
    run.Tells log log := by
  cases purpose with
  | abort cause =>
      simp only [Tells, hstage]
      exact List.prefix_refl log
  | entry | completion | pause | failure | conclusion =>
      simp only [Tells, hstage]
      exact ⟨flight, hflight, htells, by simp [houtcome]⟩

/-- A node that fails is the one that the tale is at, or one that could not be called. -/
theorem Fails.follows {scope : Scope} {tale : Tale} {nodeId : NodeId} {name : String}
    {queue continuation : List NodeId} (h : run.Fails scope nodeId name queue continuation)
    (htale : tale.Follows scope run) : tale.At nodeId ∨ tale.Between ∧ scope.Lacks nodeId := by
  cases h with
  | unknown hstage _ _ hnode =>
      simp only [Tale.Follows, hstage] at htale
      refine Or.inr ⟨htale, ?_⟩
      intro node hfound
      cases hnode.symm.trans hfound
  | missing hstage _ _ hnode _ hexecutor =>
      simp only [Tale.Follows, hstage] at htale
      refine Or.inr ⟨htale, ?_⟩
      intro node hfound
      cases hnode.symm.trans hfound
      exact hexecutor
  | failed hstage =>
      simp only [Tale.Follows, hstage] at htale
      exact Or.inl htale

theorem Fails.working {scope : Scope} {nodeId : NodeId} {name : String}
    {queue continuation : List NodeId} (h : run.Fails scope nodeId name queue continuation) :
    run.stage = .dispatching ∨ ∃ call, run.stage = .executing call := by
  cases h with
  | unknown hstage | missing hstage => exact Or.inl hstage
  | failed hstage => exact Or.inr ⟨_, hstage⟩

end Run

namespace Tale

variable {tale : Tale} {scope : Scope} {run run' : Run} {before log : List Checkpoint}

theorem of_entering (hstage : run.stage = .entering) : Tale.Of {} scope run log log where
  follows := by
    simp only [Follows, hstage]
    rfl
  ending := by
    unfold Run.result?
    rw [hstage]
    rfl
  missing := by
    rintro _ _ _ ⟨⟩
  attested := by
    refine ⟨[], .nil, ?_⟩
    simp [Run.Tells, hstage]

namespace Of

theorem unended (h : tale.Of scope run before log) (hopen : run.result? = none) :
    tale.ending = none := by
  have hending := h.ending
  rw [hopen] at hending
  exact Option.map_eq_none_iff.mp hending

/-- Nothing depends on whether a cancellation was asked for. -/
theorem attend (h : tale.Of scope run before log) (cancelled : Bool) :
    tale.Of scope { run with cancelled } before log :=
  ⟨h.follows, h.ending, h.missing, h.attested⟩

/-- A run goes on in silence, and its log is as far beyond what was told as it was. -/
theorem hush (h : tale.Of scope run before log) (hopen : run.result? = none)
    (hopen' : run'.result? = none) (hfollows : tale.Follows scope run')
    (htells : ∀ told, run.Tells told log → run'.Tells told log) : tale.Of scope run' before log := by
  obtain ⟨told, hattests, htold⟩ := h.attested
  refine ⟨hfollows, ?_, h.missing, told, hattests, htells _ htold⟩
  rw [h.unended hopen, hopen']
  rfl

/-- The run is over, and so is its tale. -/
theorem finish {result : Except EngineError ExecutionStatus} {told : List Checkpoint}
    (tale : Tale) (durationMs : Nat) (time : Timestamp) (hended : tale.ending = none)
    (hmissing : ∀ nodeId message time, tale.last = some (.missing nodeId message time) →
      scope.Lacks nodeId)
    (hattests : List.Forall₂ Verdict.Attests tale.verdicts told) (htold : before ++ told <+: log)
    (hstage : run'.stage = .finished result) :
    ∃ tale' : Tale, tale'.events run'.id = tale.events run'.id ++
        [.workflowFinished run'.id run'.state.status durationMs (Run.complaint? result) time] ∧
      tale'.Of scope run' before log := by
  refine ⟨{ tale with
    ending := some ⟨run'.state.status, durationMs, Run.complaint? result, time⟩ }, ?_, ?_, ?_,
    hmissing, told, hattests, ?_⟩
  · simp [events, hended, Ending.event]
  · simp [Follows, hstage]
  · simp [Run.result?, hstage]
  · simpa [Run.Tells, hstage] using htold

section

variable {σ : Type} [ExecutionStore σ] {host : Host σ} {said : List ExecutionEvent}

/-- A run that asks for a commit is about to tell of the node that the tale is at. -/
private theorem ask {demand : Run.Demand} {time : Timestamp} {flight : Flight}
    (h : tale.Of scope run before log) (hdemand : run.Demands scope demand)
    (hcommit : flight.commit = demand.state.commit demand.checkpoint time)
    (houtcome : flight.outcome = none) (hflight : run'.handle.flight = some flight)
    (hstage' : run'.stage = .committing demand.purpose) : tale.Of scope run' before log := by
  have hfollows := h.follows
  have htells : ∀ told, log = told → run'.Tells told log := by
    rintro told rfl
    exact Run.tells_committing hstage' hflight houtcome (hdemand.tells hcommit)
  have hopen' : run'.result? = none := by simp [Run.result?, hstage']
  cases hdemand with
  | entry hstage =>
      apply h.hush (by simp [Run.result?, hstage]) hopen'
      · simpa only [Follows, hstage, hstage'] using hfollows
      · exact fun told htold => htells told (htold.work (Or.inl hstage))
  | conclusion hstage =>
      apply h.hush (by simp [Run.result?, hstage]) hopen'
      · simpa only [Follows, hstage, hstage'] using hfollows
      · exact fun told htold => htells told (htold.work (Or.inr (Or.inl hstage)))
  | failure _ _ hfails =>
      have hwork := hfails.working
      apply h.hush (by rcases hwork with hstage | ⟨call, hstage⟩ <;> simp [Run.result?, hstage])
        hopen'
      · simp only [Follows, hstage']
        exact hfails.follows hfollows
      · exact fun told htold => htells told (htold.work (Or.inr hwork))
  | completion _ _ _ hstage =>
      apply h.hush (by simp [Run.result?, hstage]) hopen'
      · simpa only [Follows, hstage, hstage'] using hfollows
      · exact fun told htold => htells told (htold.work (Or.inr (Or.inr ⟨_, hstage⟩)))
  | pause _ _ hstage =>
      apply h.hush (by simp [Run.result?, hstage]) hopen'
      · simpa only [Follows, hstage, hstage'] using hfollows
      · exact fun told htold => htells told (htold.work (Or.inr (Or.inr ⟨_, hstage⟩)))
  | abandonment hstage =>
      apply h.hush (by simp [Run.result?, hstage]) hopen'
      · simp [Follows, hstage']
      · intro told htold
        simpa only [Run.Tells, hstage, hstage'] using htold

/-- A node is called. -/
private theorem start {call : NodeCall} {time : Timestamp} (h : tale.Of scope run before log)
    (hstage : run.stage = .dispatching) (hstage' : run'.stage = .executing call) :
    ∃ tale' : Tale, tale'.events run'.id = tale.events run'.id ++
        [.nodeStarted run'.id call.node.id call.node.nodeType time] ∧
      tale'.Of scope run' before log := by
  have hended := h.unended (by simp [Run.result?, hstage])
  have hlast : tale.last = none := by simpa only [Follows, Between, hstage] using h.follows
  obtain ⟨told, hattests, htold⟩ := h.attested
  refine ⟨{ tale with last := some (.unfinished ⟨call.node.id, call.node.nodeType, time, []⟩) },
    ?_, ?_, ?_, ?_, told, ?_, ?_⟩
  · simp [events, hlast, hended, Last.events, Episode.events]
  · simp only [Follows, hstage']
    exact ⟨_, rfl, rfl⟩
  · simp [hended, Run.result?, hstage']
  · rintro _ _ _ ⟨⟩
  · simpa [verdicts, hlast, Last.verdict?] using hattests
  · simpa only [Run.Tells, hstage, hstage'] using htold

/-- A node that is called has something to say. -/
private theorem remark {call call' : NodeCall} {event : NodeEvent} {time : Timestamp}
    (h : tale.Of scope run before log) (hstage : run.stage = .executing call)
    (hstage' : run'.stage = .executing call') (hnode : call'.node = call.node) :
    ∃ tale' : Tale, tale'.events run'.id = tale.events run'.id ++
        [.nodeEvent run'.id call.node.id event time] ∧
      tale'.Of scope run' before log := by
  have hended := h.unended (by simp [Run.result?, hstage])
  have hat : tale.At call.node.id := by simpa only [Follows, hstage] using h.follows
  obtain ⟨episode, hlast, hid⟩ := hat
  obtain ⟨told, hattests, htold⟩ := h.attested
  refine ⟨{ tale with
    last := some (.unfinished { episode with remarks := episode.remarks ++ [(event, time)] }) },
    ?_, ?_, ?_, ?_, told, ?_, ?_⟩
  · simp [events, hlast, hended, Last.events, Episode.events, hid]
  · simp only [Follows, hstage', hnode]
    exact ⟨_, rfl, hid⟩
  · simp [hended, Run.result?, hstage']
  · rintro _ _ _ ⟨⟩
  · simpa [verdicts, hlast, Last.verdict?] using hattests
  · simpa only [Run.Tells, hstage, hstage'] using htold

/-- When a commit succeeded, the log has the checkpoint that is told of next. -/
private theorem settling {purpose : Run.Purpose} {flight : Flight}
    (h : tale.Of scope run before log) (hstage : run.stage = .committing purpose)
    (hpurpose : ∀ cause, purpose ≠ .abort cause) (hflight : run.handle.flight = some flight)
    (houtcome : flight.outcome = some (.ok ())) :
    ∃ told, log = before ++ told ∧ List.Forall₂ Verdict.Attests
      (tale.verdicts ++ (purpose.verdict? flight.commit.header.currentStep).toList) told := by
  obtain ⟨told, hattests, htold⟩ := h.attested
  cases purpose with
  | abort cause => exact absurd rfl (hpurpose cause)
  | entry | completion | pause | failure | conclusion =>
      simp only [Run.Tells, hstage] at htold
      obtain ⟨other, hother, htells, hlog⟩ := htold
      cases hflight.symm.trans hother
      simp only [houtcome] at hlog
      refine ⟨told ++ flight.commit.appended, ?_, List.rel_append hattests htells⟩
      rw [hlog, List.append_assoc]

/-- The node that the tale is at is told to have completed. -/
private theorem complete {nodeId : NodeId} {successors : List NodeId} {durationMs : Nat}
    {flight : Flight} (h : tale.Of scope run before log)
    (hstage : run.stage = .committing (.completion nodeId successors durationMs))
    (hflight : run.handle.flight = some flight) (houtcome : flight.outcome = some (.ok ()))
    (hstage' : run'.stage = .dispatching) (hheader : run'.state.header = flight.commit.header)
    (hspeaks : run.Speaks run' said) :
    ∃ tale' : Tale, tale'.events run'.id = tale.events run'.id ++ said ∧
      tale'.Of scope run' before log := by
  have hended := h.unended (by simp [Run.result?, hstage])
  have hat : tale.At nodeId := by simpa only [Follows, hstage] using h.follows
  obtain ⟨episode, hlast, hid⟩ := hat
  simp only [Run.Speaks, hstage, hstage', hheader] at hspeaks
  obtain ⟨time, rfl⟩ := hspeaks
  obtain ⟨told, rfl, hattests⟩ := h.settling hstage (by simp) hflight houtcome
  refine ⟨{ tale with
    completions := tale.completions ++
      [⟨episode, flight.commit.header.currentStep, durationMs, time⟩]
    last := none }, ?_, ?_, ?_, ?_, told, ?_, ?_⟩
  · simp [events, hlast, hended, Last.events, Completion.events, hid]
  · simp [Follows, Between, hstage']
  · simp [hended, Run.result?, hstage']
  · rintro _ _ _ ⟨⟩
  · simpa [verdicts, hlast, Last.verdict?, Completion.verdict, Run.Purpose.verdict?, hid]
      using hattests
  · simp only [Run.Tells, hstage']

/-- The node that the tale is at is told to have paused, and then the run to be over. -/
private theorem pause {nodeId : NodeId} {flight : Flight} (h : tale.Of scope run before log)
    (hstage : run.stage = .committing (.pause nodeId))
    (hflight : run.handle.flight = some flight) (houtcome : flight.outcome = some (.ok ()))
    (hstage' : run'.stage = .finished (.ok .paused))
    (hheader : run'.state.header = flight.commit.header) (hspeaks : run.Speaks run' said) :
    ∃ tale' : Tale, tale'.events run'.id = tale.events run'.id ++ said ∧
      tale'.Of scope run' before log := by
  have hended := h.unended (by simp [Run.result?, hstage])
  have hat : tale.At nodeId := by simpa only [Follows, hstage] using h.follows
  obtain ⟨episode, hlast, hid⟩ := hat
  simp only [Run.Speaks, hstage, hstage', hheader] at hspeaks
  obtain ⟨time, durationMs, later, rfl⟩ := hspeaks
  obtain ⟨told, rfl, hattests⟩ := h.settling hstage (by simp) hflight houtcome
  obtain ⟨tale', hevents, htale⟩ :=
    finish { tale with last := some (.paused episode flight.commit.header.currentStep time) }
      durationMs later hended (by rintro _ _ _ ⟨⟩)
      (by simpa [verdicts, hlast, Last.verdict?, Run.Purpose.verdict?, hid] using hattests)
      (List.prefix_refl _) hstage'
  refine ⟨tale', ?_, htale⟩
  rw [hevents]
  simp [events, hlast, hended, Last.events, hid]

/-- A node is told to have failed: the one that the tale is at, or one that could not be called. -/
private theorem fail {cause : NodeFailure} {flight : Flight} (h : tale.Of scope run before log)
    (hstage : run.stage = .committing (.failure cause))
    (hflight : run.handle.flight = some flight) (houtcome : flight.outcome = some (.ok ()))
    (hstage' : run'.stage = .aborting (.execution cause)) (hspeaks : run.Speaks run' said) :
    ∃ tale' : Tale, tale'.events run'.id = tale.events run'.id ++ said ∧
      tale'.Of scope run' before log := by
  have hended := h.unended (by simp [Run.result?, hstage])
  have hfollows : tale.At cause.nodeId ∨ tale.Between ∧ scope.Lacks cause.nodeId := by
    simpa only [Follows, hstage] using h.follows
  simp only [Run.Speaks, hstage, hstage'] at hspeaks
  obtain ⟨time, rfl⟩ := hspeaks
  obtain ⟨told, rfl, hattests⟩ := h.settling hstage (by simp) hflight houtcome
  obtain ⟨episode, hlast, hid⟩ | ⟨hlast, hlacks⟩ := hfollows
  · refine ⟨{ tale with last := some (.failed episode cause.message time) }, ?_, ?_, ?_, ?_,
      told, ?_, ?_⟩
    · simp [events, hlast, hended, Last.events, hid]
    · simp [Follows, hstage']
    · simp [hended, Run.result?, hstage']
    · rintro _ _ _ ⟨⟩
    · simpa [verdicts, hlast, Last.verdict?, Run.Purpose.verdict?, hid] using hattests
    · simp [Run.Tells, hstage']
  · unfold Between at hlast
    refine ⟨{ tale with last := some (.missing cause.nodeId cause.message time) }, ?_, ?_, ?_,
      ?_, told, ?_, ?_⟩
    · simp [events, hlast, hended, Last.events]
    · simp [Follows, hstage']
    · simp [hended, Run.result?, hstage']
    · rintro _ _ _ ⟨⟩
      exact hlacks
    · simpa [verdicts, hlast, Last.verdict?, Run.Purpose.verdict?] using hattests
    · simp [Run.Tells, hstage']

/-- A commit succeeded, and the tale goes on with what it was for. -/
private theorem settle {purpose : Run.Purpose} {flight : Flight}
    (h : tale.Of scope run before log) (hstage : run.stage = .committing purpose)
    (hflight : run.handle.flight = some flight) (houtcome : flight.outcome = some (.ok ()))
    (hstage' : run'.stage = purpose.next) (hheader : run'.state.header = flight.commit.header)
    (hspeaks : run.Speaks run' said) :
    ∃ tale' : Tale, tale'.events run'.id = tale.events run'.id ++ said ∧
      tale'.Of scope run' before log := by
  have hended := h.unended (by simp [Run.result?, hstage])
  cases purpose with
  | entry =>
      simp only [Run.Purpose.next] at hstage'
      simp only [Run.Speaks, hstage, hstage'] at hspeaks
      have hbetween : tale.Between := by simpa only [Follows, hstage] using h.follows
      obtain ⟨told, rfl, hattests⟩ := h.settling hstage (by simp) hflight houtcome
      refine ⟨tale, by simp [hspeaks], ?_, ?_, h.missing, told, ?_, ?_⟩
      · simpa only [Follows, hstage'] using hbetween
      · simp [hended, Run.result?, hstage']
      · simpa [Run.Purpose.verdict?] using hattests
      · simp only [Run.Tells, hstage']
  | completion nodeId successors durationMs =>
      exact h.complete hstage hflight houtcome hstage' hheader hspeaks
  | pause nodeId => exact h.pause hstage hflight houtcome hstage' hheader hspeaks
  | failure cause => exact h.fail hstage hflight houtcome hstage' hspeaks
  | conclusion =>
      simp only [Run.Purpose.next] at hstage'
      simp only [Run.Speaks, hstage, hstage'] at hspeaks
      obtain ⟨durationMs, time, rfl⟩ := hspeaks
      obtain ⟨told, rfl, hattests⟩ := h.settling hstage (by simp) hflight houtcome
      exact finish tale _ _ hended h.missing (by simpa [Run.Purpose.verdict?] using hattests)
        (List.prefix_refl _) hstage'
  | abort cause =>
      simp only [Run.Purpose.next] at hstage'
      simp only [Run.Speaks, hstage, hstage'] at hspeaks
      obtain ⟨durationMs, time, rfl⟩ := hspeaks
      obtain ⟨told, hattests, htold⟩ := h.attested
      exact finish tale _ _ hended h.missing hattests htold.isPrefix hstage'

/-- Nothing is told when a commit takes effect, or is refused. -/
theorem land {flight : Flight} {outcome : Except StoreError Unit} {later : List Checkpoint}
    (h : tale.Of scope run before log) (hflight : run.handle.flight = some flight)
    (hopen : flight.outcome = none)
    (hstage : (∃ purpose, run.stage = .committing purpose) ∨ ∃ cause, run.stage = .settling cause)
    (hlater : outcome = .ok () ∧ later = log ++ flight.commit.appended ∨
      (∃ cause, outcome = .error cause) ∧ later = log) :
    tale.Of scope { run with handle := { run.handle with
      flight := some { flight with outcome := some outcome } } } before later := by
  obtain ⟨told, hattests, htold⟩ := h.attested
  refine ⟨h.follows, h.ending, h.missing, told, hattests, ?_⟩
  have hgrows : log <+: later := by
    obtain ⟨-, rfl⟩ | ⟨-, rfl⟩ := hlater
    · exact List.prefix_append _ _
    · exact List.prefix_refl _
  have hprefix : before ++ told <+: later := htold.isPrefix.trans hgrows
  obtain ⟨purpose, hstage⟩ | ⟨cause, hstage⟩ := hstage
  · cases purpose with
    | abort cause => simpa only [Run.Tells, hstage] using hprefix
    | entry | completion | pause | failure | conclusion =>
        simp only [Run.Tells, hstage] at htold ⊢
        obtain ⟨other, hother, htells, hlog⟩ := htold
        cases hflight.symm.trans hother
        simp only [hopen] at hlog
        subst hlog
        refine ⟨_, rfl, htells, ?_⟩
        obtain ⟨rfl, rfl⟩ | ⟨⟨cause, rfl⟩, rfl⟩ := hlater
        · rfl
        · exact List.prefix_refl _
  · simpa only [Run.Tells, hstage] using hprefix

/-- Whatever a run does, its tale goes on with what it publishes. -/
theorem act (h : tale.Of scope run before log) (hopen : run.result? = none) (hlegal : run.Legal)
    (hact : run.Act scope host run') (hspeaks : run.Speaks run' said) :
    ∃ tale' : Tale, tale'.events run'.id = tale.events run'.id ++ said ∧
      tale'.Of scope run' before log := by
  have hsilent : said = [] → tale.Of scope run' before log →
      ∃ tale' : Tale, tale'.events run'.id = tale.events run'.id ++ said ∧
        tale'.Of scope run' before log := by
    rintro rfl htale
    exact ⟨tale, (List.append_nil _).symm, htale⟩
  cases hact with
  | stray hillegal => exact absurd hlegal hillegal
  | interrupt cause =>
      have hsaid := hspeaks.silent (Or.inr ⟨cause, rfl⟩)
      exact hsilent hsaid (h.hush hopen rfl trivial fun told htold => htold.isPrefix)
  | ask time hdemand hcommit houtcome =>
      have hsaid := hspeaks.silent (Or.inl ⟨_, rfl⟩)
      exact hsilent hsaid (h.ask hdemand hcommit houtcome rfl rfl)
  | skip hstage =>
      simp only [Run.Speaks, hstage] at hspeaks
      refine hsilent hspeaks (h.hush hopen ?_ ?_ ?_)
      · simp [Run.result?, hstage]
      · simpa only [Follows, hstage] using h.follows
      · intro told htold
        simpa only [Run.Tells, hstage] using htold
  | call _ hstage =>
      simp only [Run.Speaks, hstage] at hspeaks
      obtain ⟨time, rfl⟩ := hspeaks
      exact h.start hstage rfl
  | unfold hstage hnode =>
      simp only [Run.Speaks, hstage] at hspeaks
      obtain rfl | ⟨event, time, rfl⟩ := hspeaks
      · refine hsilent rfl (h.hush hopen rfl ?_ ?_)
        · simpa only [Follows, hstage, hnode] using h.follows
        · intro told htold
          simpa only [Run.Tells, hstage] using htold
      · exact h.remark hstage rfl hnode
  | settle hstage hflight houtcome => exact h.settle hstage hflight houtcome rfl rfl hspeaks
  | @refuse purpose _ _ hstage =>
      cases purpose with
      | abort cause =>
          simp only [Run.Speaks, hstage, Run.Purpose.refused] at hspeaks
          obtain ⟨durationMs, time, rfl⟩ := hspeaks
          obtain ⟨told, hattests, htold⟩ := h.attested
          exact finish tale _ _ (h.unended hopen) h.missing hattests htold.isPrefix rfl
      | entry | completion | pause | failure | conclusion =>
          simp only [Run.Speaks, hstage, Run.Purpose.refused] at hspeaks
          exact hsilent hspeaks (h.hush hopen rfl trivial fun told htold => htold.isPrefix)
  | compare hstage =>
      simp only [Run.Speaks, hstage] at hspeaks
      exact hsilent hspeaks (h.hush hopen rfl trivial fun told htold => htold.isPrefix)
  | fallBehind hstage =>
      simp only [Run.Speaks, hstage] at hspeaks
      exact hsilent hspeaks (h.hush hopen rfl trivial fun told htold => htold.isPrefix)
  | adopt hstage =>
      simp only [Run.Speaks, hstage] at hspeaks
      exact hsilent hspeaks (h.hush hopen rfl trivial fun told htold => htold.isPrefix)
  | stayBehind hstage =>
      simp only [Run.Speaks, hstage] at hspeaks
      exact hsilent hspeaks (h.hush hopen rfl trivial fun told htold => htold.isPrefix)
  | close hstage =>
      simp only [Run.Speaks, hstage] at hspeaks
      obtain ⟨durationMs, time, rfl⟩ := hspeaks
      obtain ⟨told, hattests, htold⟩ := h.attested
      exact finish tale _ _ (h.unended hopen) h.missing hattests htold.isPrefix rfl

end

end Of

end Tale

end WorkflowEngine
