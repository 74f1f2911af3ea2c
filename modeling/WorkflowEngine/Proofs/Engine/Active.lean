import Mathlib.Data.List.Perm.Basic
import WorkflowEngine.Proofs.Session.Basic

/-!
# What an engine has active

An engine knows by a list of activations which executions it is running. A call takes an execution on
before it reads it, and gives it back with its last step; as long as the list is exactly what the calls
hold, no two of them hold one execution, and an engine refuses a call only because another one is there.
-/
namespace WorkflowEngine

namespace Engine

variable {engine later : Engine} {id other : ExecutionId}

theorem activate_cases (h : engine.activate id = .ok later) :
    engine.isActive id = false ∧
      later = { engine with active := engine.active ++ [⟨id, false⟩] } := by
  unfold activate at h
  cases hactive : engine.isActive id with
  | true => simp [hactive] at h
  | false =>
      simp only [hactive, Bool.false_eq_true, if_false] at h
      exact ⟨rfl, (Except.ok.inj h).symm⟩

/-- Only what is active already is refused. -/
theorem activate_error {cause : EngineError} (h : engine.activate id = .error cause) :
    engine.isActive id = true ∧ cause = .executionBusy id := by
  unfold activate at h
  cases hactive : engine.isActive id with
  | true =>
      simp only [hactive, if_true, Except.error.injEq] at h
      exact ⟨rfl, h.symm⟩
  | false => simp [hactive] at h

theorem isActive_activated (h : engine.activate id = .ok later) :
    later.isActive other = (engine.isActive other || id == other) := by
  obtain ⟨-, rfl⟩ := activate_cases h
  simp [isActive]

theorem isActive_release (hother : other ≠ id) :
    (engine.release id).isActive other = engine.isActive other := by
  unfold isActive release
  rw [List.any_filter]
  congr 1
  funext activation
  by_cases hsame : activation.id = other
  · simp [hsame, hother]
  · simp [hsame]

theorem isActive_released : (engine.release id).isActive id = false := by
  simp [isActive, release]

theorem release_release : (engine.release id).release id = engine.release id := by
  simp [release, List.filter_filter]

/-- Taking an execution on leaves all other activations as they are. -/
theorem release_activated (h : engine.activate id = .ok later) :
    later.release id = engine.release id := by
  obtain ⟨-, rfl⟩ := activate_cases h
  simp [release]

theorem isActive_cancel : (engine.cancel id).isActive other = engine.isActive other := by
  unfold isActive cancel
  rw [List.any_map]
  congr 1
  funext activation
  by_cases hsame : activation.id = id <;> simp [hsame]

theorem register_cases {workflow : Workflow} (h : engine.register workflow = .ok later) :
    later.config = engine.config ∧ later.active = engine.active := by
  unfold register at h
  cases hvalid : workflow.validate with
  | error cause => simp [hvalid] at h
  | ok _ =>
      simp only [hvalid, Except.ok.injEq] at h
      subst h
      exact ⟨rfl, rfl⟩

/-- The executions that are active, in the order in which they were taken on. -/
def activeIds (engine : Engine) : List ExecutionId := engine.active.map (·.id)

theorem isActive_iff : engine.isActive id = true ↔ id ∈ engine.activeIds := by
  simp [isActive, activeIds]

theorem activeIds_activated (h : engine.activate id = .ok later) :
    later.activeIds = engine.activeIds ++ [id] ∧ id ∉ engine.activeIds := by
  obtain ⟨hidle, rfl⟩ := activate_cases h
  refine ⟨by simp [activeIds], ?_⟩
  rw [← isActive_iff, hidle]
  exact Bool.false_ne_true

theorem activeIds_release :
    (engine.release id).activeIds = engine.activeIds.filter (· != id) := by
  unfold activeIds release
  rw [List.filter_map]
  rfl

/-- Asking for a cancellation neither takes an execution on nor gives it back. -/
theorem activeIds_cancel : (engine.cancel id).activeIds = engine.activeIds := by
  unfold activeIds cancel
  rw [List.map_map]
  apply List.map_congr_left
  intro activation _
  by_cases hsame : activation.id = id <;> simp [hsame]

theorem activeIds_register {workflow : Workflow} (h : engine.register workflow = .ok later) :
    later.activeIds = engine.activeIds := by
  unfold activeIds
  rw [(register_cases h).2]

end Engine

namespace Call

variable {σ : Type} [ExecutionStore σ] {call call' : Call} {engine engine' : Engine}
  {host host' : Host σ}

/-- A step of a call takes an execution on, gives one back, or leaves the engine alone. -/
theorem next?_engine (h : call.next? engine host = some (call', engine', host')) :
    (engine' = engine ∧ (call.holds?.isSome ↔ call'.holds?.isSome)) ∨
    (∃ id, call.holds? = none ∧ call'.holds? = some id ∧ engine.activate id = .ok engine') ∨
    ∃ id, call.holds? = some id ∧ call'.holds? = none ∧ engine' = engine.release id := by
  cases call with
  | ended => cases h
  | starting request =>
      apply Or.inl
      simp only [next?] at h
      split at h
      · cases h
        exact ⟨rfl, Iff.rfl⟩
      · split at h <;> cases h <;> exact ⟨rfl, Iff.rfl⟩
  | created request state =>
      simp only [next?] at h
      cases hactivate : engine.activate state.id with
      | error cause =>
          rw [hactivate] at h
          cases h
          exact Or.inl ⟨rfl, Iff.rfl⟩
      | ok active =>
          rw [hactivate] at h
          cases h
          exact Or.inr (Or.inl ⟨state.id, rfl, rfl, hactivate⟩)
  | resuming request =>
      simp only [next?] at h
      cases hactivate : engine.activate request.id with
      | error cause =>
          rw [hactivate] at h
          cases h
          exact Or.inl ⟨rfl, Iff.rfl⟩
      | ok active =>
          rw [hactivate] at h
          cases h
          exact Or.inr (Or.inl ⟨request.id, rfl, rfl, hactivate⟩)
  | loading request =>
      simp only [next?] at h
      split at h <;> cases h
      · exact Or.inr (Or.inr ⟨request.id, rfl, rfl, rfl⟩)
      · exact Or.inr (Or.inr ⟨request.id, rfl, rfl, rfl⟩)
      · exact Or.inl ⟨rfl, Iff.rfl⟩
  | loadingLog request header =>
      simp only [next?] at h
      split at h
      · cases h
        exact Or.inr (Or.inr ⟨request.id, rfl, rfl, rfl⟩)
      · split at h <;> cases h
        · exact Or.inr (Or.inr ⟨request.id, rfl, rfl, rfl⟩)
        · exact Or.inl ⟨rfl, Iff.rfl⟩
  | driving scope run =>
      simp only [next?] at h
      split at h
      · cases h
        exact Or.inr (Or.inr ⟨run.id, rfl, rfl, rfl⟩)
      · obtain ⟨⟨run', host''⟩, -, hnext⟩ := Option.map_eq_some_iff.mp h
        cases hnext
        exact Or.inl ⟨rfl, Iff.rfl⟩

end Call

/-- The executions an engine has active are those that its calls hold, each of them once. -/
structure Engine.Serves (engine : Engine) (calls : List Call) : Prop where
  held : engine.activeIds.Perm (calls.filterMap Call.holds?)
  nodup : engine.activeIds.Nodup

namespace Engine.Serves

variable {engine later : Engine} {call call' : Call} {calls calls' : List Call} {id : ExecutionId}

theorem idle (h : engine.active = []) (hfree : ∀ call ∈ calls, call.holds? = none) :
    engine.Serves calls := by
  have hactive : engine.activeIds = [] := congrArg (List.map _) h
  constructor
  · rw [hactive, List.filterMap_eq_nil_iff.mpr hfree]
  · rw [hactive]
    exact List.nodup_nil

theorem perm (h : engine.Serves calls) (hperm : calls.Perm calls') : engine.Serves calls' :=
  ⟨h.held.trans (hperm.filterMap _), h.nodup⟩

theorem congr (h : engine.Serves calls) (hsame : later.activeIds = engine.activeIds) :
    later.Serves calls := by
  constructor
  · rw [hsame]
    exact h.held
  · rw [hsame]
    exact h.nodup

/-- What is active is held by a call, and what a call holds is active. -/
theorem isActive_iff (h : engine.Serves calls) :
    engine.isActive id = true ↔ ∃ call ∈ calls, call.holds? = some id := by
  rw [Engine.isActive_iff, h.held.mem_iff, List.mem_filterMap]

/-- A call that holds nothing comes or goes. -/
theorem cons_iff (hfree : call.holds? = none) :
    engine.Serves (call :: calls) ↔ engine.Serves calls := by
  have hheld : (call :: calls).filterMap Call.holds? = calls.filterMap Call.holds? :=
    List.filterMap_cons_none hfree
  constructor
  · intro h
    exact ⟨hheld ▸ h.held, h.nodup⟩
  · intro h
    exact ⟨hheld.symm ▸ h.held, h.nodup⟩

/-- What one call holds, no other call does. -/
theorem apart (h : engine.Serves (call :: calls)) (hholds : call.holds? = some id) :
    ∀ other ∈ calls, other.holds? ≠ some id := by
  intro other hother hsame
  have hnodup : ((call :: calls).filterMap Call.holds?).Nodup := (h.held.nodup_iff).mp h.nodup
  rw [List.filterMap_cons_some hholds, List.nodup_cons] at hnodup
  exact hnodup.1 (List.mem_filterMap.mpr ⟨other, hother, hsame⟩)

/-- No two calls hold one execution. -/
theorem pairwise (h : engine.Serves calls) :
    calls.Pairwise fun call other => ∀ id, call.holds? = some id → other.holds? ≠ some id := by
  have hnodup : (calls.filterMap Call.holds?).Pairwise (· ≠ ·) := h.held.nodup_iff.mp h.nodup
  apply (List.pairwise_filterMap.mp hnodup).imp
  intro call other hapart id hholds hsame
  exact hapart id hholds id hsame rfl

theorem take (h : engine.Serves (call :: calls)) (hfree : call.holds? = none)
    (hholds : call'.holds? = some id) (hactivate : engine.activate id = .ok later) :
    later.Serves (call' :: calls) := by
  obtain ⟨hactive, hnew⟩ := activeIds_activated hactivate
  have hcalls := (cons_iff hfree).mp h
  constructor
  · rw [hactive, List.filterMap_cons_some hholds]
    exact (List.perm_append_singleton id _).trans (hcalls.held.cons id)
  · rw [hactive]
    apply (List.perm_append_singleton id _).nodup_iff.mpr
    exact List.nodup_cons.mpr ⟨hnew, h.nodup⟩

/-- A call leaves, and with it what it holds is given back. -/
theorem leave (h : engine.Serves (call :: calls)) (hholds : call.holds? = some id) :
    (engine.release id).Serves calls := by
  have hapart := h.apart hholds
  constructor
  · rw [activeIds_release]
    have hheld := h.held
    rw [List.filterMap_cons_some hholds] at hheld
    have hrest : (calls.filterMap Call.holds?).filter (· != id) = calls.filterMap Call.holds? := by
      apply List.filter_eq_self.mpr
      intro other hother
      obtain ⟨holder, hholder, hsame⟩ := List.mem_filterMap.mp hother
      rw [bne_iff_ne]
      rintro rfl
      exact hapart holder hholder hsame
    have hfiltered := hheld.filter (· != id)
    rw [List.filter_cons_of_neg (by simp), hrest] at hfiltered
    exact hfiltered
  · rw [activeIds_release]
    exact h.nodup.filter _

/-- A call that goes on keeps the list exact, if it goes on with what it holds. -/
theorem next {σ : Type} [ExecutionStore σ] {host host' : Host σ}
    (h : engine.Serves (call :: calls))
    (hnext : call.next? engine host = some (call', later, host'))
    (hkept : ∀ id id', call.holds? = some id → call'.holds? = some id' → id' = id) :
    later.Serves (call' :: calls) := by
  rcases Call.next?_engine hnext with
    ⟨rfl, hiff⟩ | ⟨id, hfree, hholds, hactivate⟩ | ⟨id, hholds, hfree, rfl⟩
  · have hsame : call'.holds? = call.holds? := by
      cases hbefore : call.holds? with
      | none => simpa [hbefore] using hiff
      | some id =>
          obtain ⟨id', hafter⟩ := Option.isSome_iff_exists.mp (hiff.mp (by simp [hbefore]))
          rw [hafter, hkept id id' hbefore hafter]
    refine ⟨?_, h.nodup⟩
    have hheld := h.held
    rwa [List.filterMap_cons, ← hsame, ← List.filterMap_cons] at hheld
  · exact h.take hfree hholds hactivate
  · exact (cons_iff hfree).mpr (h.leave hholds)

end Engine.Serves

end WorkflowEngine
