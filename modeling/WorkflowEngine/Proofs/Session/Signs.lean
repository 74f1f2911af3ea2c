import Mathlib.Data.List.Perm.Basic
import Mathlib.Logic.Relation
import WorkflowEngine.Proofs.Engine.Active
import WorkflowEngine.Proofs.Engine.Signs
import WorkflowEngine.Proofs.Session.Passage

/-!
# Histories without the signs of zeros

Where neither the store nor the node types take notice of the signs of zeros, sessions that differ only
in them have the same histories, but for such signs: whatever can happen in the one can happen in the
other. This holds of sessions whose calls follow definitions that differ in them.
-/
namespace WorkflowEngine

open Relation

namespace Call

variable {σ : Type} [ExecutionStore σ] {call later : Call} {engine engine' : Engine}
  {host host' : Host σ}

/-- The run that a call drives has the node types of its engine. -/
theorem Blind.next (blind : call.Blind) (known : engine.registry.Blind)
    (taken : call.next? engine host = some (later, engine', host')) : later.Blind := by
  rintro scope run rfl
  cases call with
  | starting request =>
    simp only [next?] at taken
    split at taken
    · cases taken
    · split at taken <;> cases taken
  | created request state =>
    simp only [next?] at taken
    split at taken
    · cases taken
    case _ active =>
      cases taken
      rw [(Engine.activate_cases active).2]
      exact known
  | resuming request =>
    simp only [next?] at taken
    split at taken <;> cases taken
  | loading request =>
    simp only [next?] at taken
    split at taken <;> cases taken
  | loadingLog request header =>
    simp only [next?] at taken
    split at taken
    · cases taken
    · split at taken <;> cases taken
      exact known
  | driving old before =>
    obtain ⟨-, result, ended⟩ | ⟨run', cancelled, driven, -⟩ := driving_next taken
    · cases ended
    · cases driven
      exact blind _ _ rfl
  | ended outcome => cases taken

end Call

namespace Session

variable {σ : Type} [ExecutionStore σ] {session later other : Session σ}

/-- No node type takes notice of the signs of zeros. -/
structure Blind (session : Session σ) : Prop where
  engine : session.engine.registry.Blind
  tasks : ∀ task ∈ session.tasks, task.call.Blind

theorem Blind.step (blind : session.Blind) (step : session.Step later)
    (known : later.engine.registry.Blind) : later.Blind := by
  refine ⟨known, ?_⟩
  cases step with
  | ask request =>
    refine List.forall_mem_cons.mpr ⟨?_, blind.tasks⟩
    change request.call.Blind
    rintro scope run driven
    cases request <;> cases driven
  | advance tasks taken =>
    have first := blind.tasks _ (tasks.mem_iff.mpr List.mem_cons_self)
    refine List.forall_mem_cons.mpr ⟨first.next blind.engine taken, fun task mem => ?_⟩
    exact blind.tasks task (tasks.mem_iff.mpr (List.mem_cons_of_mem _ mem))
  | wait | cancel | register | remove | replace => exact blind.tasks

theorem Blind.ask (blind : session.Blind) (request : Request) : (session.ask request).Blind :=
  blind.step (.ask request) blind.engine

/-- What can become of a session whose engines have no node types that take notice of the signs of
zeros. -/
def Becomes (session later : Session σ) : Prop :=
  ReflTransGen (fun before after => before.Step after ∧ after.engine.registry.Blind) session later

theorem Blind.becomes (blind : session.Blind) (becomes : session.Becomes later) : later.Blind := by
  induction becomes with
  | refl => exact blind
  | tail _ last ih => exact ih.step last.1 last.2

variable [BlindStore σ]

/-- Sessions that differ only in the signs of zeros, and in what they were asked for and have done. -/
structure Alike (session other : Session σ) : Prop where
  engine : other.engine.unsigned = session.engine.unsigned
  host : other.host.unsigned = session.host.unsigned
  tasks : List.Forall₂ (fun task after : Task => after.call.unsigned = task.call.unsigned)
    session.tasks other.tasks

theorem Alike.symm (alike : session.Alike other) : other.Alike session :=
  ⟨alike.engine.symm, alike.host.symm, alike.tasks.flip.imp fun _ _ same => same.symm⟩

theorem Alike.exists_task (alike : session.Alike other) {after : Task} (mem : after ∈ other.tasks) :
    ∃ task ∈ session.tasks, after.call.unsigned = task.call.unsigned := by
  obtain ⟨i, rfl⟩ := List.mem_iff_get.mp mem
  have below : i.1 < session.tasks.length := by
    rw [alike.tasks.length_eq]
    exact i.2
  exact ⟨_, List.get_mem _ ⟨i.1, below⟩, alike.tasks.get below i.2⟩

theorem Alike.blind (alike : session.Alike other) (blind : session.Blind) : other.Blind where
  engine := blind.engine.of_muted (congrArg Engine.registry alike.engine)
  tasks after mem := by
    obtain ⟨task, known, same⟩ := alike.exists_task mem
    exact (blind.tasks task known).of_unsigned same

/-- A call goes on as a call does that differs only in the signs of zeros. -/
theorem Alike.next {task after : Task} {call : Call} {engine : Engine} {host : Host σ}
    (alike : session.Alike other) (same : after.call.unsigned = task.call.unsigned)
    (blind : task.call.Blind)
    (taken : task.call.next? session.engine session.host = some (call, engine, host)) :
    ∃ call' engine' host', after.call.next? other.engine other.host = some (call', engine', host') ∧
      call'.unsigned = call.unsigned ∧ engine'.unsigned = engine.unsigned ∧
      host'.unsigned = host.unsigned := by
  have left := Call.next?_unsigned other.engine other.host (blind.of_unsigned same)
  rw [same, alike.engine, alike.host, Call.next?_unsigned session.engine session.host blind, taken]
    at left
  obtain ⟨⟨call', engine', host'⟩, taken', agree⟩ := Option.map_eq_some_iff.mp left.symm
  simp only [Call.left, Prod.mk.injEq] at agree
  exact ⟨call', engine', host', taken', agree⟩

/-- Whatever happens next in a session can happen in one that differs only in the signs of zeros. -/
theorem Alike.step (alike : session.Alike other) (blind : session.Blind) (step : session.Step later) :
    ∃ after, other.Step after ∧ later.Alike after := by
  cases step with
  | ask request => exact ⟨_, .ask request, alike.engine, alike.host, .cons rfl alike.tasks⟩
  | advance tasks taken =>
    obtain ⟨found, same, perm⟩ := List.perm_comp_forall₂ tasks.symm alike.tasks
    cases same with
    | @cons _ first _ rest same others =>
      obtain ⟨call', engine', host', taken', calls, engines, hosts⟩ :=
        alike.next same (blind.tasks _ (tasks.mem_iff.mpr List.mem_cons_self)) taken
      exact ⟨_, .advance perm.symm taken', engines, hosts, .cons calls others⟩
  | wait time =>
    refine ⟨_, .wait time, alike.engine, ?_, alike.tasks⟩
    rw [Host.waitUntil_unsigned, Host.waitUntil_unsigned, alike.host]
  | cancel id =>
    exact ⟨_, .cancel id, congrArg (Engine.cancel · id) alike.engine, alike.host, alike.tasks⟩
  | register registered =>
    obtain ⟨engine, registered, same⟩ := Engine.register_alike alike.engine rfl registered
    exact ⟨_, .register registered, same, alike.host, alike.tasks⟩
  | remove id =>
    refine ⟨_, .remove id, ?_, alike.host, alike.tasks⟩
    change (other.engine.remove id).unsigned = (session.engine.remove id).unsigned
    rw [← Engine.remove_unsigned, ← Engine.remove_unsigned, alike.engine]
  | replace engine done idle =>
    refine ⟨_, .replace engine (fun after mem => ?_) idle, rfl, alike.host, alike.tasks⟩
    obtain ⟨task, known, same⟩ := alike.exists_task mem
    obtain ⟨outcome, ended⟩ := done task known
    rw [ended] at same
    cases call : after.call with
    | ended outcome => exact ⟨outcome, rfl⟩
    | _ =>
      rw [call] at same
      cases same

/-- A history of a session is one of a session that differs only in the signs of zeros. -/
theorem Alike.becomes (alike : session.Alike other) (blind : session.Blind)
    (becomes : session.Becomes later) : ∃ after, other.Becomes after ∧ later.Alike after := by
  induction becomes with
  | refl => exact ⟨other, .refl, alike⟩
  | tail before last ih =>
    obtain ⟨after, reached, alike⟩ := ih
    have blind := blind.becomes before
    obtain ⟨next, step, alike⟩ := alike.step blind last.1
    exact ⟨next, reached.tail ⟨step, (alike.blind (blind.step last.1 last.2)).engine⟩, alike⟩

end Session

end WorkflowEngine
