import WorkflowEngine.Proofs.Engine.Active
import WorkflowEngine.Proofs.Run.Bearing

/-!
# Calls exclude each other

A process is an engine on its host with the calls made of it, each of which remembers what it changed
itself. Between two of its steps anything may happen: other calls go on, are made or are dropped,
cancellations are asked for, definitions come and go, time passes, and other processes write to the
store, which may be any whose headers lie under their own ids.

At any time the engine has active what its calls hold, each execution once, and a call that resumes an
execution and is refused has by itself done nothing but to take the id on and to give it back.
-/
namespace WorkflowEngine

/-- An engine and its host before and after a step of one call. -/
structure Change (σ : Type) where
  before : Engine × Host σ
  after : Engine × Host σ

namespace Change

variable {σ : Type}

/-- The call took an execution on, and changed nothing else. -/
def Takes (id : ExecutionId) (change : Change σ) : Prop :=
  change.before.1.activate id = .ok change.after.1 ∧ change.after.2 = change.before.2

/-- The call changed nothing. -/
def Rests (change : Change σ) : Prop := change.after = change.before

/-- The call gave an execution back, and changed nothing else. -/
def Leaves (id : ExecutionId) (change : Change σ) : Prop :=
  change.after.1 = change.before.1.release id ∧ change.after.2 = change.before.2

/-- All that a call changed that resumes an execution and was refused: either nothing, because the
execution was active, or it took the id on, read, and gave it back. -/
inductive Refusal (id : ExecutionId) : List (Change σ) → Prop
  | busy {change : Change σ} (hactive : change.before.1.isActive id = true)
      (hrests : change.Rests) : Refusal id [change]
  | taken {take leave : Change σ} {reads : List (Change σ)} (htakes : take.Takes id)
      (hrests : ∀ read ∈ reads, read.Rests) (hleaves : leave.Leaves id) :
      Refusal id (take :: (reads ++ [leave]))

/-- What a call changed by itself has come to nothing: it wrote nothing, published nothing and drew
nothing, touched no part of the engine but the activation of one execution, and left that as it found
it. -/
structure Void (id : ExecutionId) (changes : List (Change σ)) : Prop where
  host_eq : ∀ change ∈ changes, change.after.2 = change.before.2
  apart : ∀ change ∈ changes, change.after.1.release id = change.before.1.release id
  active_eq : ∃ first last, changes.head? = some first ∧ changes.getLast? = some last ∧
    last.after.1.isActive id = first.before.1.isActive id

theorem Refusal.void {id : ExecutionId} {changes : List (Change σ)} (h : Refusal id changes) :
    Void id changes := by
  cases h with
  | @busy change _ hrests =>
      constructor
      · intro other hother
        obtain rfl := List.mem_singleton.mp hother
        rw [hrests]
      · intro other hother
        obtain rfl := List.mem_singleton.mp hother
        rw [hrests]
      · exact ⟨change, change, rfl, rfl, by rw [hrests]⟩
  | @taken take leave reads htakes hrests hleaves =>
      have hcases : ∀ change ∈ take :: (reads ++ [leave]),
          change.Takes id ∨ change.Rests ∨ change.Leaves id := by
        intro change hchange
        rcases List.mem_cons.mp hchange with rfl | hchange
        · exact .inl htakes
        rcases List.mem_append.mp hchange with hread | hlast
        · exact .inr (.inl (hrests change hread))
        · obtain rfl := List.mem_singleton.mp hlast
          exact .inr (.inr hleaves)
      constructor
      · intro change hchange
        rcases hcases change hchange with hstep | hstep | hstep
        · exact hstep.2
        · rw [hstep]
        · exact hstep.2
      · intro change hchange
        rcases hcases change hchange with hstep | hstep | hstep
        · exact Engine.release_activated hstep.1
        · rw [hstep]
        · rw [hstep.1, Engine.release_release]
      · refine ⟨take, leave, rfl, ?_, ?_⟩
        · rw [← List.cons_append, List.getLast?_concat]
        · rw [hleaves.1, Engine.isActive_released, (Engine.activate_cases htakes.1).1]

end Change

/-- A call in progress, with what it was asked for and what it changed itself so far. -/
structure Attempt (σ : Type) where
  request : Request
  call : Call
  changes : List (Change σ) := []

structure Process (σ : Type) where
  engine : Engine
  host : Host σ
  attempts : List (Attempt σ) := []

namespace Process

variable {σ : Type} [ExecutionStore σ]

/-- One thing that happens in a process, or to its store. -/
inductive Step (process : Process σ) : Process σ → Prop
  | ask (request : Request) :
      Step process { process with attempts := ⟨request, request.call, []⟩ :: process.attempts }
  | advance {attempt : Attempt σ} {others : List (Attempt σ)} {call : Call} {engine : Engine}
      {host : Host σ} (hattempts : process.attempts.Perm (attempt :: others))
      (hnext : attempt.call.next? process.engine process.host = some (call, engine, host)) :
      Step process
        { engine, host
          attempts := { attempt with
            call
            changes := attempt.changes ++ [⟨(process.engine, process.host), (engine, host)⟩] } ::
              others }
  /-- A caller drops a call, and with it what it holds. -/
  | drop {attempt : Attempt σ} {others : List (Attempt σ)}
      (hattempts : process.attempts.Perm (attempt :: others)) :
      Step process { process with
        engine := attempt.call.holds?.elim process.engine process.engine.release
        attempts := others }
  | wait (time : Nat) : Step process { process with host := process.host.waitUntil time }
  | cancel (id : ExecutionId) : Step process { process with engine := process.engine.cancel id }
  | register {workflow : Workflow} {engine : Engine}
      (hengine : process.engine.register workflow = .ok engine) :
      Step process { process with engine }
  | remove (id : WorkflowId) : Step process { process with engine := process.engine.remove id }
  /-- Others write to the store. -/
  | foreign {store : σ} (hstore : Becomes process.host.store store) :
      Step process { process with host := { process.host with store } }

variable [OriginStore σ]

/-- The processes that begin with an idle engine on any store whose headers lie under their ids. -/
inductive Reachable : Process σ → Prop
  | initial {engine : Engine} {host : Host σ} (hidle : engine.active = [])
      (haddressed : Addressed host.store) : Reachable { engine, host }
  | step {process later : Process σ} (h : Reachable process) (hstep : process.Step later) :
      Reachable later

end Process

/-- A call is where its request can have brought it, and what it changed so far is what it had to. -/
def Attempt.Stands {σ : Type} (attempt : Attempt σ) : Prop :=
  match attempt.call with
  | .starting request => attempt.request = .start request
  | .created request state => attempt.request = .start request ∧ state.status = .pending
  | .resuming request => attempt.request = .resume request ∧ attempt.changes = []
  | .loading request =>
    attempt.request = .resume request ∧
      ∃ take, attempt.changes = [take] ∧ take.Takes request.id
  | .loadingLog request header =>
    attempt.request = .resume request ∧ header.id = request.id ∧
      ∃ take read, attempt.changes = [take, read] ∧ take.Takes request.id ∧ read.Rests
  | .driving _ run =>
    run.Bears (·.id = run.id) ∧ ∀ request, attempt.request = .resume request → run.id = request.id
  | .ended (.ok _) => True
  | .ended (.error _) =>
    ∀ request, attempt.request = .resume request → Change.Refusal request.id attempt.changes

section

variable {σ : Type} [ExecutionStore σ] [OriginStore σ] {call call' : Call} {engine engine' : Engine}
  {host host' : Host σ} {asked : Request} {changes : List (Change σ)}

/-- What is read under an id in a store whose headers lie under their ids. -/
theorem Addressed.header_id {store : σ} (h : Addressed store) {id : ExecutionId}
    {header : ExecutionHeader}
    (hload : ExecutionStore.loadHeader store id = .ok (some header)) : header.id = id :=
  h id header.origin (OriginStore.origin_of_header hload)

/-- Whatever a call does, headers lie under their ids. -/
theorem Call.addressed_next (h : Addressed host.store)
    (hnext : call.next? engine host = some (call', engine', host')) : Addressed host'.store := by
  rcases next?_store hnext with hstore | ⟨_, header, -, -, hstore⟩ | ⟨_, _, _, _, -, -, hlands⟩
  · rw [hstore]
    exact h
  · rw [hstore]
    exact h.insert header
  · cases hlands with
    | intro _ _ hstore =>
        rw [hstore]
        exact h.commit _

namespace Attempt

omit [OriginStore σ] in
private theorem stands_starting {request : StartRequest}
    (h : Stands ⟨asked, .starting request, changes⟩)
    (hnext : (Call.starting request).next? engine host = some (call, engine', host')) :
    Stands ⟨asked, call, changes ++ [⟨(engine, host), (engine', host')⟩]⟩ := by
  have hasked : asked = .start request := h
  have hrefused : ∀ cause changes,
      (⟨asked, .ended (.error cause), changes⟩ : Attempt σ).Stands := by
    rintro cause changes resume hresume
    cases hasked.symm.trans hresume
  simp only [Call.next?] at hnext
  split at hnext
  · cases hnext
    exact hrefused _ _
  · obtain ⟨header, _, hnew, -, -, hfailed, hcreated⟩ :=
      Handle.create_cases request (engine.totalSteps request.workflow) host
    cases hinsert : (ExecutionStore.insert host.store header).1 with
    | error cause =>
        simp only [hfailed cause hinsert] at hnext
        cases hnext
        exact hrefused _ _
    | ok _ =>
        simp only [hcreated hinsert] at hnext
        cases hnext
        obtain ⟨id, steps, time, rfl⟩ := hnew
        exact ⟨hasked, rfl⟩

omit [OriginStore σ] in
private theorem stands_created {request : StartRequest} {state : ExecutionState}
    (h : Stands ⟨asked, .created request state, changes⟩)
    (hnext : (Call.created request state).next? engine host = some (call, engine', host')) :
    Stands ⟨asked, call, changes ++ [⟨(engine, host), (engine', host')⟩]⟩ := by
  obtain ⟨hasked, hpending⟩ : asked = .start request ∧ state.status = .pending := h
  simp only [Call.next?] at hnext
  split at hnext <;> cases hnext
  · intro resume hresume
    cases hasked.symm.trans hresume
  · have hkind : (fun origin : Origin => origin.id = state.id) state.header.origin := rfl
    constructor
    · apply Run.Bears.start _ _ host hkind
      rw [hpending]
      rfl
    · intro resume hresume
      cases hasked.symm.trans hresume

omit [OriginStore σ] in
private theorem stands_resuming {request : ResumeRequest}
    (h : Stands ⟨asked, .resuming request, changes⟩)
    (hnext : (Call.resuming request).next? engine host = some (call, engine', host')) :
    Stands ⟨asked, call, changes ++ [⟨(engine, host), (engine', host')⟩]⟩ := by
  obtain ⟨hasked, hchanges⟩ : asked = .resume request ∧ changes = [] := h
  subst hchanges
  simp only [Call.next?] at hnext
  cases hactivate : engine.activate request.id with
  | error cause =>
      rw [hactivate] at hnext
      cases hnext
      intro resume hresume
      cases hasked.symm.trans hresume
      exact .busy (Engine.activate_error hactivate).1 rfl
  | ok active =>
      rw [hactivate] at hnext
      cases hnext
      exact ⟨hasked, _, rfl, hactivate, rfl⟩

private theorem stands_loading {request : ResumeRequest} (haddressed : Addressed host.store)
    (h : Stands ⟨asked, .loading request, changes⟩)
    (hnext : (Call.loading request).next? engine host = some (call, engine', host')) :
    Stands ⟨asked, call, changes ++ [⟨(engine, host), (engine', host')⟩]⟩ := by
  obtain ⟨hasked, take, hchanges, htakes⟩ :
    asked = .resume request ∧ ∃ take, changes = [take] ∧ take.Takes request.id := h
  subst hchanges
  have hnone : ∀ read ∈ ([] : List (Change σ)), read.Rests := by
    intro read hread
    cases hread
  have hrefused : ∀ cause, (⟨asked, .ended (.error cause),
      [take] ++ [⟨(engine, host), (engine.release request.id, host)⟩]⟩ : Attempt σ).Stands := by
    rintro cause resume hresume
    cases hasked.symm.trans hresume
    exact Change.Refusal.taken htakes hnone ⟨rfl, rfl⟩
  simp only [Call.next?] at hnext
  cases hload : ExecutionStore.loadHeader host.store request.id with
  | error cause =>
      rw [hload] at hnext
      cases hnext
      exact hrefused _
  | ok found =>
      cases found with
      | none =>
          rw [hload] at hnext
          cases hnext
          exact hrefused _
      | some header =>
          rw [hload] at hnext
          cases hnext
          exact ⟨hasked, haddressed.header_id hload, take, _, rfl, htakes, rfl⟩

omit [OriginStore σ] in
private theorem stands_loadingLog {request : ResumeRequest} {header : ExecutionHeader}
    (h : Stands ⟨asked, .loadingLog request header, changes⟩)
    (hnext : (Call.loadingLog request header).next? engine host = some (call, engine', host')) :
    Stands ⟨asked, call, changes ++ [⟨(engine, host), (engine', host')⟩]⟩ := by
  obtain ⟨hasked, hid, take, read, hchanges, htakes, hrests⟩ :
    asked = .resume request ∧ header.id = request.id ∧
      ∃ take read, changes = [take, read] ∧ take.Takes request.id ∧ read.Rests := h
  subst hchanges
  have honly : ∀ other ∈ [read], other.Rests := by
    intro other hother
    rwa [List.mem_singleton.mp hother]
  have hrefused : ∀ cause, (⟨asked, .ended (.error cause),
      [take, read] ++ [⟨(engine, host), (engine.release request.id, host)⟩]⟩ : Attempt σ).Stands := by
    rintro cause resume hresume
    cases hasked.symm.trans hresume
    exact Change.Refusal.taken htakes honly ⟨rfl, rfl⟩
  simp only [Call.next?] at hnext
  cases hload : ExecutionStore.loadCheckpoints host.store request.id 0 with
  | error cause =>
      rw [hload] at hnext
      cases hnext
      exact hrefused _
  | ok log =>
      cases hprepare : Call.prepareResume engine request
          (.ofRecord (ExecutionStore.assemble header log)) with
      | error cause =>
          simp only [hload, hprepare] at hnext
          cases hnext
          exact hrefused _
      | ok prepared =>
          obtain ⟨workflow, state⟩ := prepared
          simp only [hload, hprepare] at hnext
          cases hnext
          obtain ⟨hresume, -, -, hstate⟩ := Call.prepareResume_cases hprepare
          have hkind : (fun origin : Origin => origin.id = state.id) state.header.origin := rfl
          constructor
          · apply Run.Bears.start _ _ host hkind
            rw [hstate]
            cases request.input <;> exact ExecutionState.canBecome_of_canResume hresume
          · intro resume hresumed
            cases hasked.symm.trans hresumed
            rw [← hid]
            change state.header.id = header.id
            rw [hstate]
            cases request.input <;> rfl

private theorem stands_driving {scope : Scope} {run : Run} (haddressed : Addressed host.store)
    (h : Stands ⟨asked, .driving scope run, changes⟩)
    (hnext : (Call.driving scope run).next? engine host = some (call, engine', host')) :
    Stands ⟨asked, call, changes ++ [⟨(engine, host), (engine', host')⟩]⟩ := by
  obtain ⟨hbears, hasked⟩ : run.Bears (·.id = run.id) ∧
    ∀ resume, asked = .resume resume → run.id = resume.id := h
  obtain ⟨result, rfl⟩ | ⟨run', rfl, hbears'⟩ :=
    hbears.next (fun header => haddressed.header_id) hnext
  · exact trivial
  · have hid : run'.id = run.id := hbears'.own
    change run'.Bears (·.id = run'.id) ∧ ∀ resume, asked = .resume resume → run'.id = resume.id
    rw [hid]
    exact ⟨hbears', hasked⟩

/-- What a call has come to and has changed stays right with its next step. -/
theorem Stands.next {attempt : Attempt σ} (h : attempt.Stands) (haddressed : Addressed host.store)
    (hnext : attempt.call.next? engine host = some (call, engine', host')) :
    Stands { attempt with
      call
      changes := attempt.changes ++ [⟨(engine, host), (engine', host')⟩] } := by
  obtain ⟨asked, standing, changes⟩ := attempt
  cases standing with
  | starting request => exact stands_starting h hnext
  | created request state => exact stands_created h hnext
  | resuming request => exact stands_resuming h hnext
  | loading request => exact stands_loading haddressed h hnext
  | loadingLog request header => exact stands_loadingLog h hnext
  | driving scope run => exact stands_driving haddressed h hnext
  | ended outcome => cases hnext

omit [ExecutionStore σ] [OriginStore σ] in
/-- A call that resumes an execution holds that one or none. -/
theorem Stands.holds {attempt : Attempt σ} (h : attempt.Stands) {request : ResumeRequest}
    (hrequest : attempt.request = .resume request) {id : ExecutionId}
    (hholds : attempt.call.holds? = some id) : id = request.id := by
  obtain ⟨asked, standing, changes⟩ := attempt
  subst hrequest
  cases standing <;> cases hholds
  case loading => cases h.1; rfl
  case loadingLog => cases h.1; rfl
  case driving => exact h.2 request rfl

/-- What a call holds it keeps, until it gives it back. -/
theorem Stands.kept {attempt : Attempt σ} (h : attempt.Stands) (haddressed : Addressed host.store)
    (hnext : attempt.call.next? engine host = some (call, engine', host')) :
    ∀ id id', attempt.call.holds? = some id → call.holds? = some id' → id' = id := by
  intro id id' hbefore hafter
  have hlater := h.next haddressed hnext
  obtain ⟨asked, standing, changes⟩ := attempt
  cases standing <;> cases hbefore
  case loading => exact hlater.holds h.1 hafter
  case loadingLog => exact hlater.holds h.1 hafter
  case driving scope run =>
    obtain ⟨result, rfl⟩ | ⟨run', rfl, hbears⟩ :=
      Run.Bears.next h.1 (fun header => haddressed.header_id) hnext <;> cases hafter
    exact hbears.own

end Attempt

end

namespace Process

variable {σ : Type} [ExecutionStore σ] [OriginStore σ] {process later : Process σ}

/-- What holds of a process at any time. -/
structure Ordered (process : Process σ) : Prop where
  addressed : Addressed process.host.store
  stands : ∀ attempt ∈ process.attempts, attempt.Stands
  serves : process.engine.Serves (process.attempts.map (·.call))

theorem Ordered.step (h : process.Ordered) (hstep : process.Step later) : later.Ordered := by
  cases hstep with
  | ask request =>
      constructor
      · exact h.addressed
      · intro attempt hattempt
        rcases List.mem_cons.mp hattempt with rfl | hattempt
        · cases request with
          | start => rfl
          | resume => exact ⟨rfl, rfl⟩
        · exact h.stands attempt hattempt
      · apply (Engine.Serves.cons_iff _).mpr h.serves
        cases request <;> rfl
  | @advance attempt others call engine host hattempts hnext =>
      have hstands := h.stands attempt (hattempts.mem_iff.mpr List.mem_cons_self)
      constructor
      · exact Call.addressed_next h.addressed hnext
      · intro other hother
        rcases List.mem_cons.mp hother with rfl | hother
        · exact hstands.next h.addressed hnext
        · exact h.stands other (hattempts.mem_iff.mpr (List.mem_cons_of_mem _ hother))
      · have hserves := h.serves.perm (hattempts.map (·.call))
        exact hserves.next hnext (hstands.kept h.addressed hnext)
  | @drop attempt others hattempts =>
      have hserves := h.serves.perm (hattempts.map (·.call))
      constructor
      · exact h.addressed
      · intro other hother
        exact h.stands other (hattempts.mem_iff.mpr (List.mem_cons_of_mem _ hother))
      · change Engine.Serves (attempt.call.holds?.elim process.engine process.engine.release)
          (others.map (·.call))
        cases hholds : attempt.call.holds? with
        | none => exact (Engine.Serves.cons_iff hholds).mp hserves
        | some id => exact hserves.leave hholds
  | wait time =>
      refine ⟨?_, h.stands, h.serves⟩
      rw [Host.waitUntil_store]
      exact h.addressed
  | cancel id => exact ⟨h.addressed, h.stands, h.serves.congr Engine.activeIds_cancel⟩
  | register hengine =>
      exact ⟨h.addressed, h.stands, h.serves.congr (Engine.activeIds_register hengine)⟩
  | remove id => exact ⟨h.addressed, h.stands, h.serves.congr rfl⟩
  | foreign hstore => exact ⟨h.addressed.becomes hstore, h.stands, h.serves⟩

theorem Reachable.ordered (h : process.Reachable) : process.Ordered := by
  induction h with
  | initial hidle haddressed =>
      constructor
      · exact haddressed
      · intro attempt hattempt
        cases hattempt
      · apply Engine.Serves.idle hidle
        intro call hcall
        cases hcall
  | step _ hstep ih => exact ih.step hstep

/-- At any time of any process, an execution is active exactly while a call holds it, no two calls hold
one execution, and calls that resume one hold no other; so a call is refused at once that is to resume
what another one holds. Whatever a call is refused for that resumes an execution, what it changed by
itself has come to nothing. -/
theorem Reachable.exclusive (h : process.Reachable) :
    (∀ id, process.engine.isActive id = true ↔
      ∃ attempt ∈ process.attempts, attempt.call.holds? = some id) ∧
    process.attempts.Pairwise (fun attempt other =>
      ∀ id, attempt.call.holds? = some id → other.call.holds? ≠ some id) ∧
    ∀ attempt ∈ process.attempts, ∀ request, attempt.request = .resume request →
      (∀ id, attempt.call.holds? = some id → id = request.id) ∧
      (attempt.call = .resuming request → ∀ other ∈ process.attempts,
        other.call.holds? = some request.id →
          attempt.call.next? process.engine process.host =
            some (.refuse (.executionBusy request.id), process.engine, process.host)) ∧
      ∀ cause, attempt.call = .ended (.error cause) → Change.Void request.id attempt.changes := by
  have hordered := h.ordered
  have hactive : ∀ id, process.engine.isActive id = true ↔
      ∃ attempt ∈ process.attempts, attempt.call.holds? = some id := by
    intro id
    rw [hordered.serves.isActive_iff]
    simp only [List.mem_map, exists_exists_and_eq_and]
  refine ⟨hactive, List.pairwise_map.mp hordered.serves.pairwise, ?_⟩
  intro attempt hattempt request hrequest
  have hstands := hordered.stands attempt hattempt
  refine ⟨fun id => hstands.holds hrequest, ?_, ?_⟩
  · intro hcall other hother hholds
    have hbusy := (hactive request.id).mpr ⟨other, hother, hholds⟩
    rw [hcall]
    simp only [Call.next?, Engine.activate, hbusy, if_true]
  · intro cause hcall
    unfold Attempt.Stands at hstands
    rw [hcall] at hstands
    exact (hstands request hrequest).void

/-- Two calls resume an execution that is not there: the first takes it on, so that the second is
refused, and is refused itself when it has read. -/
theorem Reachable.exclusive_of_missing : ∃ process : Process MemoryStore, process.Reachable ∧
    process.attempts.map (fun attempt =>
      (attempt.call.outcome?.map (·.toOption.isSome), attempt.changes.length)) =
        [(some false, 2), (some false, 1)] ∧
    process.engine.isActive Sample.firstId = false ∧
    ∀ attempt ∈ process.attempts, Change.Void Sample.firstId attempt.changes := by
  have hidle : Reachable (⟨{ registry := Sample.registry }, { store := {}, bus := default }, []⟩ :
      Process MemoryStore) := .initial rfl (addressed_of_lawful _)
  have hasked := (hidle.step (.ask (Sample.resume Sample.single))).step
    (.ask (Sample.resume Sample.single))
  have htaken := hasked.step (.advance (List.Perm.refl _) rfl)
  have hbusy := htaken.step (.advance (List.Perm.swap _ _ _) rfl)
  have hover := hbusy.step (.advance (List.Perm.swap _ _ _) rfl)
  have hexclusive := hover.exclusive
  refine ⟨_, hover, rfl, rfl, ?_⟩
  intro attempt hattempt
  have hrefused := hexclusive.2.2 attempt hattempt
  rcases List.mem_pair.mp hattempt with rfl | rfl
  · exact (hrefused _ rfl).2.2 _ rfl
  · exact (hrefused _ rfl).2.2 _ rfl

end Process

end WorkflowEngine
