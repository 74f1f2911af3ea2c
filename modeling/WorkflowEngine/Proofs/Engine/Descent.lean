import WorkflowEngine.Engine.Timeline
import WorkflowEngine.Proofs.Run.Bearing

/-!
# Executions of a definition

What a call that starts an execution leaves under an id that was free is of its own definition, however
far it comes and whatever store it writes to: it puts one header into the store, under an id that is
free then, and all that its run commits and takes over keeps the origin of this one.
-/
namespace WorkflowEngine

section

variable {σ : Type} [ExecutionStore σ] [OriginStore σ]

/-- What is stored under an id, if anything is, is an execution of one definition. -/
def Descends (store : σ) (id : ExecutionId) (workflowId : WorkflowId) : Prop :=
  ∀ origin, OriginStore.origin? store id = some origin → origin = ⟨id, workflowId⟩

namespace Descends

variable {store : σ} {id : ExecutionId} {workflowId : WorkflowId}

theorem of_absent (h : OriginStore.origin? store id = none) : Descends store id workflowId := by
  intro origin horigin
  rw [h] at horigin
  cases horigin

theorem insert (h : Descends store id workflowId) {header : ExecutionHeader}
    (hheader : header.workflowId = workflowId) :
    Descends (ExecutionStore.insert store header).2 id workflowId := by
  intro origin horigin
  rcases OriginStore.origin_of_insert horigin with hbefore | ⟨rfl, rfl⟩
  · exact h origin hbefore
  · rw [ExecutionHeader.origin, hheader]

theorem commit (h : Descends store id workflowId) {c : Commit}
    (hheader : c.header.workflowId = workflowId) :
    Descends (ExecutionStore.commit store c).2 id workflowId := by
  intro origin horigin
  rcases OriginStore.origin_of_commit horigin with hbefore | ⟨rfl, rfl⟩
  · exact h origin hbefore
  · rw [ExecutionHeader.origin, hheader]

end Descends

end

namespace Call

/-- A call that has come from starting a definition. -/
def Stems {σ : Type} [ExecutionStore σ] [OriginStore σ] (workflow : Workflow) (store : σ) :
    Call → Prop
  | .starting request => request.workflow = workflow
  | .created request state =>
    request.workflow = workflow ∧ state.status = .pending ∧
      state.header.workflowId = workflow.id ∧ Descends store state.id workflow.id
  | .driving _ run =>
    run.Bears (· = ⟨run.id, workflow.id⟩) ∧ Descends store run.id workflow.id
  | .ended _ => True
  | _ => False

section

variable {σ : Type} [ExecutionStore σ] [OriginStore σ] {call call' : Call} {engine engine' : Engine}
  {host host' : Host σ} {workflow : Workflow}

private theorem stems_starting {request : StartRequest}
    (hnext : (Call.starting request).next? engine host = some (call, engine', host')) :
    call.Stems request.workflow host'.store ∧
      ∀ id, Descends host.store id request.workflow.id →
        Descends host'.store id request.workflow.id := by
  simp only [next?] at hnext
  split at hnext
  · cases hnext
    exact ⟨trivial, fun id h => h⟩
  · obtain ⟨header, host'', hnew, -, hstore, hrefused, hcreated⟩ :=
      Handle.create_cases request (engine.totalSteps request.workflow) host
    have hheader : header.workflowId = request.workflow.id ∧ header.status = .pending := by
      obtain ⟨_, _, _, rfl⟩ := hnew
      exact ⟨rfl, rfl⟩
    have hkept : ∀ id, Descends host.store id request.workflow.id →
        Descends host''.store id request.workflow.id := by
      intro id h
      rw [hstore]
      exact h.insert hheader.1
    cases hinsert : (ExecutionStore.insert host.store header).1 with
    | error cause =>
        simp only [hrefused cause hinsert] at hnext
        cases hnext
        exact ⟨trivial, hkept⟩
    | ok _ =>
        simp only [hcreated hinsert] at hnext
        cases hnext
        have hfree := OriginStore.absent_of_insert hinsert
        exact ⟨⟨rfl, hheader.2, hheader.1, hkept header.id (.of_absent hfree)⟩, hkept⟩

private theorem stems_created {request : StartRequest} {state : ExecutionState}
    (h : (Call.created request state).Stems workflow host.store)
    (hnext : (Call.created request state).next? engine host = some (call, engine', host')) :
    call.Stems workflow host'.store ∧ host'.store = host.store := by
  obtain ⟨rfl, hpending, howner, hdescends⟩ := h
  simp only [next?] at hnext
  split at hnext <;> cases hnext
  · exact ⟨trivial, rfl⟩
  · have hkind : (· = (⟨state.id, request.workflow.id⟩ : Origin)) state.header.origin := by
      rw [← howner]
      rfl
    refine ⟨⟨?_, hdescends⟩, rfl⟩
    apply Run.Bears.start _ _ host hkind
    rw [hpending]
    rfl

private theorem stems_driving {scope : Scope} {run : Run}
    (h : (Call.driving scope run).Stems workflow host.store)
    (hnext : (Call.driving scope run).next? engine host = some (call, engine', host')) :
    call.Stems workflow host'.store ∧
      ∀ id, Descends host.store id workflow.id → Descends host'.store id workflow.id := by
  obtain ⟨hbears, hdescends⟩ := h
  have hkept : ∀ id, Descends host.store id workflow.id → Descends host'.store id workflow.id := by
    intro id h
    rcases next?_store hnext with hstore | ⟨_, _, hcall, -⟩ | ⟨_, _, _, _, hcall, -, hlands⟩
    · rwa [hstore]
    · cases hcall
    · cases hcall
      obtain ⟨hflight, -, hstore⟩ := hlands
      rw [hstore]
      exact h.commit (congrArg Origin.workflowId (hbears.commits _ hflight))
  refine ⟨?_, hkept⟩
  have hread : ∀ header, ExecutionStore.loadHeader host.store run.id = .ok (some header) →
      header.origin = ⟨run.id, workflow.id⟩ :=
    fun header hload => hdescends _ (OriginStore.origin_of_header hload)
  obtain ⟨result, rfl⟩ | ⟨run', rfl, hbears'⟩ := hbears.next hread hnext
  · exact trivial
  · have hid : run'.id = run.id := congrArg Origin.id hbears'.own
    change run'.Bears (· = ⟨run'.id, workflow.id⟩) ∧ Descends host'.store run'.id workflow.id
    rw [hid]
    exact ⟨hbears', hkept run.id hdescends⟩

theorem Stems.next (h : call.Stems workflow host.store)
    (hnext : call.next? engine host = some (call', engine', host')) :
    call'.Stems workflow host'.store ∧
      ∀ id, Descends host.store id workflow.id → Descends host'.store id workflow.id := by
  cases call with
  | starting request =>
      cases h
      exact stems_starting hnext
  | created request state =>
      obtain ⟨hstems, hstore⟩ := stems_created h hnext
      rw [hstore] at hstems ⊢
      exact ⟨hstems, fun id h => h⟩
  | driving scope run => exact stems_driving h hnext
  | ended outcome => cases hnext
  | resuming | loading | loadingLog => exact h.elim

omit [OriginStore σ] in
/-- All that a call does to the store are writes to it. -/
theorem becomes_play (call : Call) (engine : Engine) (host : Host σ) (fuel : Nat) :
    Becomes host.store (call.play fuel engine host).2.2.store := by
  induction fuel generalizing call engine host with
  | zero => exact .refl
  | succ fuel ih =>
      unfold Call.play
      cases hnext : call.next? engine host with
      | some next =>
          obtain ⟨call', engine', host'⟩ := next
          have hlater := ih call' engine' host'
          rcases next?_store hnext with hstore | ⟨_, _, -, -, hstore⟩ | ⟨_, _, _, _, -, -, hlands⟩
          · rwa [hstore] at hlater
          · rw [hstore] at hlater
            exact hlater.after_insert
          · obtain ⟨-, -, hstore⟩ := hlands
            rw [hstore] at hlater
            exact hlater.after_commit
      | none =>
          cases call.wakesAt? with
          | none => exact .refl
          | some time =>
              have hlater := ih call engine (host.waitUntil time)
              rwa [Host.waitUntil_store] at hlater

/-- However far a call comes that starts a definition, what is stored under an id stays of it. -/
theorem Stems.play (fuel : Nat) {id : ExecutionId} (h : call.Stems workflow host.store)
    (hdescends : Descends host.store id workflow.id) :
    Descends (call.play fuel engine host).2.2.store id workflow.id := by
  induction fuel generalizing call engine host with
  | zero => exact hdescends
  | succ fuel ih =>
      unfold Call.play
      cases hnext : call.next? engine host with
      | some next =>
          obtain ⟨call', engine', host'⟩ := next
          obtain ⟨hstems, hkept⟩ := h.next hnext
          exact ih hstems (hkept id hdescends)
      | none =>
          cases call.wakesAt? with
          | none => exact hdescends
          | some time =>
              apply ih <;> rw [Host.waitUntil_store]
              · exact h
              · exact hdescends

/-- What a call that starts an execution leaves under a free id is an execution of its definition, which
its engine found fit to run. -/
theorem origin_of_start (request : StartRequest) (fuel : Nat) {id : ExecutionId} {origin : Origin}
    (hfree : OriginStore.origin? host.store id = none)
    (horigin : OriginStore.origin?
      ((Call.starting request).play fuel engine host).2.2.store id = some origin) :
    origin = ⟨id, request.workflow.id⟩ ∧ engine.accept request.workflow = .ok () := by
  have hstems : (Call.starting request).Stems request.workflow host.store := rfl
  refine ⟨hstems.play fuel (.of_absent hfree) origin horigin, ?_⟩
  cases haccept : engine.accept request.workflow with
  | ok _ => rfl
  | error cause =>
      have hstays : ((Call.starting request).play fuel engine host).2.2.store = host.store := by
        cases fuel with
        | zero => rfl
        | succ fuel =>
            simp only [play, next?, haccept]
            cases fuel <;> rfl
      rw [hstays, hfree] at horigin
      cases horigin

end

end Call

end WorkflowEngine
