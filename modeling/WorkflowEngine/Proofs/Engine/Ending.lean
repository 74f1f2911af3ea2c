import Mathlib.Order.OrderIsoNat
import WorkflowEngine.Engine.Timeline
import WorkflowEngine.Proofs.Run.Work

/-!
# Calls come to an end

Every step of a call leaves less for it to do, whatever engine and whatever host it finds then, so it
takes finitely many of them; and as long as it is not over there is a moment at which it takes the next
one. From where its run begins it takes no more entries of the queue than there are in the queue at
first and edges in the definition.
-/
namespace WorkflowEngine

namespace Call

/-- A call as it may be found in its course. -/
def Regular : Call → Prop
  | .driving _ run => run.Regular
  | _ => True

/-- How far a call is from its end, as long as it does not run. -/
def rank : Call → Nat
  | .starting _ => 4
  | .resuming _ => 4
  | .created _ _ => 3
  | .loading _ => 3
  | .loadingLog _ _ => 2
  | .driving _ _ => 1
  | .ended _ => 0

/-- What every step of a call makes less. -/
def remaining (call : Call) : ℕ ×ₗ ℕ ×ₗ ℕ ×ₗ ℕ :=
  toLex (call.rank,
    match call with
    | .driving scope run => run.remaining scope
    | _ => toLex (0, toLex (0, 0)))

/-- Entries that a step of a call takes from the queue of its run. -/
def taken : Call → Call → Nat
  | .driving _ run, .driving _ run' => run.taken run'
  | _, _ => 0

/-- A call can go on to this, on some engine and some host. -/
def GoesOn (σ : Type) [ExecutionStore σ] (call later : Call) : Prop :=
  ∃ (engine engine' : Engine) (host host' : Host σ),
    call.next? engine host = some (later, engine', host')

/-- A call goes on from one of its states to another, whatever happens between its steps, and takes so
many entries in all. -/
inductive Takes (σ : Type) [ExecutionStore σ] (first : Call) : Nat → Call → Prop
  | none : Takes σ first 0 first
  | step {entries : Nat} {call later : Call} (h : Takes σ first entries call)
      (hstep : call.GoesOn σ later) : Takes σ first (entries + call.taken later) later

variable {σ : Type} [ExecutionStore σ] {call later : Call} {engine engine' : Engine}
  {host host' : Host σ}

/-- A call comes nearer to its run, begins it, lets it go on or is over. -/
theorem next?_cases (hnext : call.next? engine host = some (later, engine', host')) :
    (later.rank < call.rank ∧ ∀ scope run, later = .driving scope run →
      ∃ state cancelled, run = (Run.start scope state cancelled host).1) ∨
    ∃ scope run run' cancelled, call = .driving scope run ∧ later = .driving scope run' ∧
      Run.next? { run with cancelled } scope host = some (run', host') := by
  cases call with
  | starting request =>
      refine Or.inl ?_
      simp only [next?] at hnext
      split at hnext
      · cases hnext
        exact ⟨by simp [rank, refuse], by rintro _ _ ⟨⟩⟩
      · split at hnext <;> cases hnext <;> exact ⟨by simp [rank, refuse], by rintro _ _ ⟨⟩⟩
  | created request state =>
      refine Or.inl ?_
      simp only [next?] at hnext
      split at hnext <;> cases hnext
      · exact ⟨by simp [rank, refuse], by rintro _ _ ⟨⟩⟩
      · refine ⟨by simp [rank, drive], ?_⟩
        rintro scope run ⟨⟩
        exact ⟨_, _, rfl⟩
  | resuming request =>
      refine Or.inl ?_
      simp only [next?] at hnext
      split at hnext <;> cases hnext <;> exact ⟨by simp [rank, refuse], by rintro _ _ ⟨⟩⟩
  | loading request =>
      refine Or.inl ?_
      simp only [next?] at hnext
      split at hnext <;> cases hnext <;> exact ⟨by simp [rank, refuse], by rintro _ _ ⟨⟩⟩
  | loadingLog request header =>
      refine Or.inl ?_
      obtain ⟨-, ⟨outcome, rfl⟩ | ⟨log, workflow, state, cancelled, -, rfl⟩⟩ :=
        loadingLog_cases hnext
      · exact ⟨by simp [rank], by rintro _ _ ⟨⟩⟩
      · refine ⟨by simp [rank], ?_⟩
        rintro scope run ⟨⟩
        exact ⟨_, _, rfl⟩
  | driving scope run =>
      obtain ⟨-, result, rfl⟩ | ⟨run', cancelled, rfl, -, hrun⟩ := driving_next hnext
      · exact Or.inl ⟨by simp [rank], by rintro _ _ ⟨⟩⟩
      · exact Or.inr ⟨scope, run, run', cancelled, rfl, rfl, hrun⟩
  | ended outcome => cases hnext

/-- A call stays regular, and every step leaves less to do. -/
theorem Regular.goesOn (h : call.Regular) (hstep : call.GoesOn σ later) :
    later.Regular ∧ later.remaining < call.remaining := by
  obtain ⟨engine, engine', host, host', hnext⟩ := hstep
  obtain ⟨hrank, hbegins⟩ | ⟨scope, run, run', cancelled, rfl, rfl, hrun⟩ := next?_cases hnext
  · refine ⟨?_, Prod.Lex.toLex_lt_toLex.mpr (Or.inl hrank)⟩
    cases later with
    | driving scope run =>
        obtain ⟨state, cancelled, rfl⟩ := hbegins scope run rfl
        exact Run.Regular.start scope state cancelled host
    | _ => trivial
  · have hattends := Run.Regular.attend h cancelled
    exact ⟨hattends.next hrun,
      Prod.Lex.toLex_lt_toLex.mpr (Or.inr ⟨rfl, hattends.remaining_next hrun⟩)⟩

/-- No call goes on for ever. -/
theorem Regular.finite (calls : Nat → Call) (h : (calls 0).Regular) :
    ∃ index, ¬(calls index).GoesOn σ (calls (index + 1)) := by
  by_contra hnever
  push Not at hnever
  have hregular : ∀ index, (calls index).Regular := by
    intro index
    induction index with
    | zero => exact h
    | succ index ih => exact (ih.goesOn (hnever index)).1
  refine not_strictAnti_of_wellFoundedLT (fun index => (calls index).remaining) ?_
  exact strictAnti_nat_of_succ_lt fun index => ((hregular index).goesOn (hnever index)).2

/-- A call that is not over goes on at once, or has a time at which it does. -/
theorem Regular.wakes (h : call.Regular) (hopen : call.outcome? = none) (engine : Engine)
    (host : Host σ) :
    (call.next? engine host).isSome = true ∨
      ∃ time, call.wakesAt? = some time ∧
        (call.next? engine (host.waitUntil time)).isSome = true := by
  cases call with
  | starting | created | resuming | loading =>
      refine Or.inl ?_
      simp only [next?]
      split <;> try split
      all_goals rfl
  | loadingLog request header =>
      refine Or.inl ?_
      simp only [next?]
      split
      · rfl
      · split <;> rfl
  | ended outcome => cases hopen
  | driving scope run =>
      generalize hcancelled : (run.cancelled || engine.isCancelled run.id) = cancelled
      cases hresult : ({ run with cancelled } : Run).result? with
      | some result => exact Or.inl (by simp only [next?, hcancelled, hresult]; rfl)
      | none =>
          have hgoes : ∀ host : Host σ,
              (Run.next? { run with cancelled } scope host).isSome = true →
              ((Call.driving scope run).next? engine host).isSome = true := by
            intro host hrun
            simp only [next?, hcancelled, hresult]
            rwa [Option.isSome_map]
          obtain hnow | ⟨time, htime, hlater⟩ :=
            (Run.Regular.attend h cancelled).wakes (σ := σ) hresult
          · exact Or.inl (hgoes host (hnow scope host))
          · refine Or.inr ⟨time, htime, hgoes _ (hlater scope _ ?_)⟩
            exact Nat.le_max_right host.now time

/-- A call that is played comes to an end, wherever it stands and whatever engine and host it finds. -/
theorem Regular.play_ends (h : call.Regular) (engine : Engine) (host : Host σ) :
    ∃ fuel outcome engine' host', call.play fuel engine host = (.ended outcome, engine', host') := by
  induction hleft : call.remaining using WellFoundedLT.induction generalizing call engine host with
  | ind left ih =>
      subst hleft
      have hplay : ∀ (host : Host σ), (call.next? engine host).isSome = true →
          ∃ fuel outcome engine' host',
            call.play fuel engine host = (.ended outcome, engine', host') := by
        intro host hsome
        obtain ⟨⟨later, engine', host'⟩, hnext⟩ := Option.isSome_iff_exists.mp hsome
        obtain ⟨hlater, hless⟩ := h.goesOn ⟨engine, engine', host, host', hnext⟩
        obtain ⟨fuel, outcome, hends⟩ := ih _ hless hlater engine' host' rfl
        refine ⟨fuel + 1, outcome, ?_⟩
        simpa only [play, hnext] using hends
      cases houtcome : call.outcome? with
      | some outcome =>
          cases call with
          | ended outcome => exact ⟨0, outcome, engine, host, rfl⟩
          | _ => cases houtcome
      | none =>
          obtain hnow | ⟨time, htime, hlater⟩ := h.wakes houtcome engine host
          · exact hplay host hnow
          · cases hnext : call.next? engine host with
            | some next => exact hplay host (by rw [hnext]; rfl)
            | none =>
                obtain ⟨fuel, outcome, hends⟩ := hplay _ hlater
                refine ⟨fuel + 1, outcome, ?_⟩
                simpa only [play, hnext, htime] using hends

/-- From where its run begins, a call takes no more entries than there are in its queue and edges in
its definition. -/
theorem Takes.le {scope : Scope} {state : ExecutionState} {cancelled : Bool} {entries : Nat}
    (h : Takes σ (.driving scope (Run.start scope state cancelled host).1) entries call) :
    entries ≤ (Run.initialQueue scope state).length + scope.workflow.connections.length := by
  have hdue : (Run.start scope state cancelled host).1.due scope ≤
      (Run.initialQueue scope state).length + scope.workflow.connections.length :=
    Nat.add_le_add_left (scope.workflow.length_openEdges_le _) _
  have hleft : (∃ run : Run, call = .driving scope run ∧ run.Regular ∧
        entries + run.due scope ≤ (Run.start scope state cancelled host).1.due scope) ∨
      (∃ outcome, call = .ended outcome) ∧
        entries ≤ (Run.start scope state cancelled host).1.due scope := by
    induction h with
    | none => exact Or.inl ⟨_, rfl, .start scope state cancelled host, by omega⟩
    | step _ hstep ih =>
        obtain ⟨engine, engine', host, host', hnext⟩ := hstep
        obtain ⟨run, rfl, hregular, hbound⟩ | ⟨⟨outcome, rfl⟩, -⟩ := ih
        · obtain ⟨-, result, rfl⟩ | ⟨run', cancelled, rfl, -, hrun⟩ := driving_next hnext
          · refine Or.inr ⟨⟨_, rfl⟩, ?_⟩
            simp only [taken]
            omega
          · have hattends := hregular.attend cancelled
            have hspent : run.taken run' + run'.due scope ≤ run.due scope :=
              hattends.due_next hrun
            refine Or.inl ⟨run', rfl, hattends.next hrun, ?_⟩
            simp only [taken]
            omega
        · cases hnext
  obtain ⟨run, -, -, hbound⟩ | ⟨-, hbound⟩ := hleft <;> omega

end Call

end WorkflowEngine
