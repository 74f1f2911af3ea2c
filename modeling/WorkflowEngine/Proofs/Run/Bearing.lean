import WorkflowEngine.Proofs.Session.Conduct
import WorkflowEngine.Proofs.Session.Passage
import WorkflowEngine.Proofs.Store.Origin

/-!
# What a run's headers keep

A run changes much of its header, but never which execution it is of, or of which definition: not in
memory, not in a commit, and not when it takes over what is stored, as long as what it reads there is
of the same origin. This needs nothing of the store but where its headers come from.
-/
namespace WorkflowEngine

namespace Run

/-- All headers of a run have an origin of some kind, and its status is where its stage needs it. -/
structure Bears (Kind : Origin → Prop) (run : Run) : Prop where
  own : Kind run.state.header.origin
  commits : ∀ flight, run.handle.flight = some flight → Kind flight.commit.header.origin
  stands :
    match run.stage with
    | .entering => run.state.status.canBecome .running = true
    | .dispatching => run.state.status = .running
    | .executing _ => run.state.status = .running
    | .committing purpose => purpose.next = .dispatching →
      ∀ flight, run.handle.flight = some flight → flight.commit.header.status = .running
    | .catchingUp _ stored => Kind stored.origin
    | _ => True

variable {σ : Type} [ExecutionStore σ] {Kind : Origin → Prop} {scope : Scope} {run run' : Run}
  {host host' : Host σ}

theorem Bears.legal (h : run.Bears Kind) : run.Legal := by
  have hstands := h.stands
  unfold Legal
  cases hstage : run.stage <;> simp only [hstage] at hstands ⊢ <;> exact hstands

theorem Bears.attend (h : run.Bears Kind) (cancelled : Bool) :
    Bears Kind { run with cancelled } :=
  ⟨h.own, h.commits, h.stands⟩

omit [ExecutionStore σ] in
/-- A run begins with the headers of its state. -/
theorem Bears.start {state : ExecutionState} (cancelled : Bool) (scope : Scope) (host : Host σ)
    (hkind : Kind state.header.origin) (hstatus : state.status.canBecome .running = true) :
    (Run.start scope state cancelled host).1.Bears Kind := by
  refine ⟨hkind, ?_, hstatus⟩
  intro flight hflight
  cases hflight

private theorem Bears.ask (h : run.Bears Kind) {demand : Demand} {flight : Flight}
    {time : Timestamp} (hdemand : run.Demands scope demand)
    (hcommit : flight.commit = demand.state.commit demand.checkpoint time) :
    Bears Kind { run with
      handle := ⟨demand.state, some flight⟩
      queue := demand.queue
      dispatched := demand.dispatched
      stage := .committing demand.purpose } := by
  have hkind : Kind demand.state.header.origin := by
    obtain ⟨_, _, _, _, hstate⟩ := hdemand.state_eq
    rw [hstate]
    exact h.own
  refine ⟨hkind, ?_, ?_⟩
  · intro other hother
    cases hother
    rw [hcommit]
    exact hkind
  · intro hnext other hother
    cases hother
    rw [hcommit]
    exact hdemand.running h.legal hnext

private theorem Bears.settle (h : run.Bears Kind) {purpose : Purpose} {flight : Flight}
    (hstage : run.stage = .committing purpose) (hflight : run.handle.flight = some flight) :
    Bears Kind { run with
      handle := ⟨run.state.committed flight.commit, none⟩
      queue := run.queue ++ purpose.successors
      stage := purpose.next } := by
  refine ⟨h.commits flight hflight, ?_, ?_⟩
  · intro other hother
    cases hother
  · have hstands := h.stands
    simp only [hstage] at hstands
    cases purpose with
    | entry | completion => exact hstands rfl flight hflight
    | pause | failure | conclusion | abort => exact trivial

/-- What a run does itself keeps its headers, if the stored ones it may read are of their kind. -/
theorem Bears.act (h : run.Bears Kind)
    (hread : ∀ header, ExecutionStore.loadHeader host.store run.id = .ok (some header) →
      Kind header.origin)
    (hact : run.Act scope host run') : run'.Bears Kind := by
  have hnone : ∀ flight, (none : Option Flight) = some flight →
      Kind flight.commit.header.origin := by
    intro flight hflight
    cases hflight
  have hstands := h.stands
  cases hact with
  | interrupt => exact ⟨h.own, h.commits, trivial⟩
  | ask time hdemand hcommit => exact h.ask hdemand hcommit
  | skip hstage =>
      simp only [hstage] at hstands
      refine ⟨h.own, h.commits, ?_⟩
      simp only [hstage]
      exact hstands
  | call _ hstage | unfold hstage =>
      simp only [hstage] at hstands
      exact ⟨h.own, h.commits, hstands⟩
  | settle hstage hflight => exact h.settle hstage hflight
  | @refuse purpose =>
      refine ⟨h.own, hnone, ?_⟩
      cases purpose <;> trivial
  | compare => exact ⟨h.own, hnone, trivial⟩
  | fallBehind hstage hidle hload => exact ⟨h.own, hnone, hread _ hload⟩
  | adopt hstage =>
      simp only [hstage] at hstands
      exact ⟨hstands, h.commits, trivial⟩
  | stayBehind | close => exact ⟨h.own, h.commits, trivial⟩
  | stray hillegal => exact absurd h.legal hillegal

theorem Bears.land (h : run.Bears Kind) (hlands : run.Lands host run' host') :
    run'.Bears Kind := by
  obtain ⟨hflight, houtcome, -⟩ := hlands
  rename_i flight
  refine ⟨h.own, ?_, ?_⟩
  · intro other hother
    cases hother
    exact h.commits flight hflight
  · have hstands := h.stands
    cases hstage : run.stage <;> simp only [hstage] at hstands ⊢ <;> try exact hstands
    intro hnext other hother
    cases hother
    exact hstands hnext flight hflight

/-- A call that leads to a run tells its result, or goes on with headers of the same kind. -/
theorem Bears.next {call : Call} {engine engine' : Engine} (h : run.Bears Kind)
    (hread : ∀ header, ExecutionStore.loadHeader host.store run.id = .ok (some header) →
      Kind header.origin)
    (hnext : (Call.driving scope run).next? engine host = some (call, engine', host')) :
    (∃ result, call = .ended (.ok result)) ∨
      ∃ run' : Run, call = .driving scope run' ∧ run'.Bears Kind := by
  rcases Call.driving_cases hnext with
    ⟨-, result, rfl⟩ | ⟨run', cancelled, rfl, hlands | ⟨-, hact⟩⟩
  · exact .inl ⟨result, rfl⟩
  · exact .inr ⟨run', rfl, (h.attend cancelled).land hlands⟩
  · exact .inr ⟨run', rfl, (h.attend cancelled).act hread hact⟩

end Run

end WorkflowEngine
