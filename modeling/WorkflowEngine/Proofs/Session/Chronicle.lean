import WorkflowEngine.Proofs.Run.Act
import WorkflowEngine.Engine.Call

/-!
What became durable in the life of one execution, oldest first. A chronicle is not part of the
engine: it is written beside a history, from what was asked and from the commits that took effect,
so that a stored record can be compared with it.
-/
namespace WorkflowEngine

inductive Deed where
  /-- The execution was put into the store. -/
  | created (request : StartRequest)
  /-- The first save of a call took effect: its run follows `scope`, with `input` in the context. -/
  | saved (scope : Scope) (input : Option Context)
  /-- A checkpoint took effect, and with it the record got this status. -/
  | appended (checkpoint : Checkpoint) (status : ExecutionStatus)
  /-- A commit was refused although another writer was not the cause. -/
  | refused

abbrev Chronicle := List Deed

namespace Chronicle

/-- The context the execution was started with. -/
def initialContext : Chronicle → Context
  | .created request :: _ => request.context
  | _ => []

def checkpoints (chronicle : Chronicle) : List Checkpoint :=
  chronicle.filterMap fun
    | .appended checkpoint _ => some checkpoint
    | _ => none

/-- One deed more, for the inputs since the last checkpoint. -/
def noteInput (inputs : List Context) : Deed → List Context
  | .saved _ (some input) => inputs ++ [input]
  | .appended _ _ => []
  | _ => inputs

/-- The inputs saved since the last checkpoint, in order. -/
def inputs (chronicle : Chronicle) : List Context := chronicle.foldl noteInput []

/-- The context of the last checkpoint of a log, or else the one the execution was started with. -/
def lastContext (initial : Context) (log : List Checkpoint) : Context :=
  (log.getLast?.map (·.context)).getD initial

/-- What a chronicle makes of the context. -/
def context (chronicle : Chronicle) : Context :=
  chronicle.inputs.foldl Fields.merge (lastContext chronicle.initialContext chronicle.checkpoints)

/-- One deed more, for the scope of the last save. -/
def noteScope (scope : Option Scope) : Deed → Option Scope
  | .saved scope _ => some scope
  | _ => scope

/-- What the run of the last save follows. -/
def scope? (chronicle : Chronicle) : Option Scope := chronicle.foldl noteScope none

@[simp] theorem checkpoints_saved (chronicle : Chronicle) (scope : Scope)
    (input : Option Context) :
    checkpoints (chronicle ++ [.saved scope input]) = chronicle.checkpoints := by
  simp [checkpoints]

@[simp] theorem checkpoints_appended (chronicle : Chronicle) (checkpoint : Checkpoint)
    (status : ExecutionStatus) :
    checkpoints (chronicle ++ [.appended checkpoint status]) =
      chronicle.checkpoints ++ [checkpoint] := by
  simp [checkpoints]

@[simp] theorem scope?_saved (chronicle : Chronicle) (scope : Scope) (input : Option Context) :
    scope? (chronicle ++ [.saved scope input]) = some scope := by
  simp [scope?, noteScope]

@[simp] theorem scope?_appended (chronicle : Chronicle) (checkpoint : Checkpoint)
    (status : ExecutionStatus) :
    scope? (chronicle ++ [.appended checkpoint status]) = chronicle.scope? := by
  simp [scope?, noteScope]

/-- What a run follows was saved. -/
theorem mem_of_scope? {chronicle : Chronicle} {scope : Scope} (h : chronicle.scope? = some scope) :
    ∃ input, Deed.saved scope input ∈ chronicle := by
  have hfold : ∀ (deeds : Chronicle) (before : Option Scope),
      deeds.foldl noteScope before = some scope →
        before = some scope ∨ ∃ input, Deed.saved scope input ∈ deeds := by
    intro deeds
    induction deeds with
    | nil => exact fun before hbefore => Or.inl hbefore
    | cons deed deeds ih =>
        intro before hbefore
        rcases ih (noteScope before deed) hbefore with hnoted | ⟨input, hinput⟩
        · cases deed with
          | saved saved input =>
              cases hnoted
              exact Or.inr ⟨input, List.mem_cons_self⟩
          | created | appended | refused => exact Or.inl hnoted
        · exact Or.inr ⟨input, List.mem_cons_of_mem _ hinput⟩
  exact (hfold chronicle none h).resolve_left (by simp)

theorem initialContext_append (chronicle later : Chronicle) (h : chronicle ≠ []) :
    initialContext (chronicle ++ later) = chronicle.initialContext := by
  cases chronicle with
  | nil => exact absurd rfl h
  | cons first rest => cases first <;> rfl

/-- A save sets its input on top of the context. -/
theorem context_saved (chronicle : Chronicle) (scope : Scope) (input : Option Context)
    (h : chronicle ≠ []) :
    context (chronicle ++ [.saved scope input]) =
      input.elim chronicle.context (Fields.merge chronicle.context) := by
  have hinputs : inputs (chronicle ++ [.saved scope input]) = chronicle.inputs ++ input.toList := by
    cases input <;> simp [inputs, noteInput]
  unfold context
  rw [hinputs, initialContext_append _ _ h, checkpoints_saved]
  cases input <;> simp

/-- A checkpoint brings its own context. -/
theorem context_appended (chronicle : Chronicle) (checkpoint : Checkpoint)
    (status : ExecutionStatus) :
    context (chronicle ++ [.appended checkpoint status]) = checkpoint.context := by
  have hinputs : inputs (chronicle ++ [.appended checkpoint status]) = [] := by
    simp [inputs, noteInput]
  simp [context, hinputs, lastContext]

end Chronicle

/-- The first commit of a run says that the execution is running, and adds no checkpoint. -/
def Commit.isOpening (commit : Commit) : Bool :=
  commit.header.status == .running && commit.appended.isEmpty

/-- What a commit is for the chronicle, by what the store answered. A conflict is no deed: it leaves
the record to its other writer. -/
def Commit.deeds (commit : Commit) (scope : Scope) (input : Option Context) :
    Except StoreError Unit → Chronicle
  | .ok () =>
    if commit.isOpening then [.saved scope input]
    else commit.appended.map fun checkpoint => .appended checkpoint commit.header.status
  | .error (.conflict ..) => []
  | .error _ => [.refused]

namespace Commit

variable {commit : Commit} {scope : Scope} {input : Option Context}

theorem deeds_opening (hstatus : commit.header.status = .running)
    (happended : commit.appended = []) :
    commit.deeds scope input (.ok ()) = [.saved scope input] := by
  simp [deeds, isOpening, hstatus, happended]

theorem deeds_appended {checkpoint : Checkpoint} (happended : commit.appended = [checkpoint]) :
    commit.deeds scope input (.ok ()) = [.appended checkpoint commit.header.status] := by
  simp [deeds, isOpening, happended]

theorem deeds_closing (hstatus : commit.header.status ≠ .running)
    (happended : commit.appended = []) : commit.deeds scope input (.ok ()) = [] := by
  simp [deeds, isOpening, hstatus, happended]

end Commit

/-- The commit on its way whose outcome became known to the store between two states of a run. -/
def Run.landing? (before after : Run) : Option (Commit × Except StoreError Unit) :=
  match before.handle.flight, after.handle.flight with
  | some flight, some flight' =>
    match flight.outcome, flight'.outcome with
    | none, some outcome => some (flight'.commit, outcome)
    | _, _ => none
  | _, _ => none

/-- What a step of a run adds to the chronicle of its execution. -/
def Run.deeds (before after : Run) (scope : Scope) (input : Option Context) : Chronicle :=
  match before.landing? after with
  | some (commit, outcome) => commit.deeds scope input outcome
  | none => []

namespace Run

variable {σ : Type} [ExecutionStore σ] {scope : Scope} {run run' : Run} {host host' : Host σ}

/-- What a run does itself leaves the outcome of its commit open. -/
theorem Act.landing (h : run.Act scope host run') (hlegal : run.Legal) :
    run.landing? run' = none := by
  cases h with
  | interrupt =>
      unfold landing? withState
      cases run.handle.flight with
      | none => rfl
      | some flight => cases houtcome : flight.outcome <;> simp [houtcome]
  | skip | call | unfold | adopt | stayBehind | close =>
      unfold landing?
      cases hflight : run.handle.flight with
      | none => rfl
      | some flight => cases houtcome : flight.outcome <;> simp [houtcome]
  | ask time hdemand hcommit houtcome htime =>
      unfold landing?
      cases hflight : run.handle.flight with
      | none => rfl
      | some flight => cases flight.outcome <;> simp [houtcome]
  | settle | refuse | compare | fallBehind =>
      unfold landing?
      cases hflight : run.handle.flight <;> rfl
  | stray hillegal => exact absurd hlegal hillegal

/-- What the store answered to the commit of a run. -/
theorem Lands.answer {commit : Commit} {outcome : Except StoreError Unit}
    (h : run.Lands host run' host') (hlanding : run.landing? run' = some (commit, outcome)) :
    ∃ flight, run.handle.flight = some flight ∧ flight.outcome = none ∧ flight.commit = commit ∧
      (ExecutionStore.commit host.store commit).1 = outcome ∧
      host'.store = (ExecutionStore.commit host.store commit).2 ∧
      run' = { run with handle := { run.handle with
        flight := some { flight with outcome := some outcome } } } := by
  obtain ⟨hflight, houtcome, hstore⟩ := h
  rename_i flight
  simp only [landing?, hflight, houtcome, Option.some.injEq, Prod.mk.injEq] at hlanding
  obtain ⟨rfl, rfl⟩ := hlanding
  exact ⟨flight, hflight, houtcome, rfl, rfl, hstore, rfl⟩

/-- What a run does itself is no deed yet. -/
theorem Act.deeds (h : run.Act scope host run') (hlegal : run.Legal) (follows : Scope)
    (input : Option Context) : run.deeds run' follows input = [] := by
  unfold Run.deeds
  rw [h.landing hlegal]

end Run

end WorkflowEngine
