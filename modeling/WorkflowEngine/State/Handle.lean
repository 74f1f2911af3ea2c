import WorkflowEngine.State.Basic

/-!
# Handles on an execution

A handle is a working copy together with the commit that is on its way to the store. A commit goes on
by itself once it was asked for: whoever waited for it may go away, and a later reconciliation finds
what it did. At most one commit of a handle is on its way at a time.
-/
namespace WorkflowEngine

/-- A commit on its way. -/
structure Flight where
  commit : Commit
  /-- When it takes effect. -/
  landsAt : Nat
  /-- When its outcome is known. -/
  answersAt : Nat
  /-- What the store said, once it has taken effect. -/
  outcome : Option (Except StoreError Unit) := none
  deriving Inhabited

structure Handle where
  state : ExecutionState
  flight : Option Flight := none
  deriving Inhabited

namespace Handle

variable {σ : Type} [ExecutionStore σ]

def mapState (handle : Handle) (f : ExecutionState → ExecutionState) : Handle :=
  { handle with state := f handle.state }

/-- Ask for a commit at a given time. -/
def send (handle : Handle) (commit : Commit) (now : Nat) (latency : Latency) : Handle :=
  let landsAt := now + latency.before
  { handle with flight := some { commit, landsAt, answersAt := landsAt + latency.after } }

/-- Let the commit on its way take effect. -/
def land (handle : Handle) (store : σ) : Handle × σ :=
  match handle.flight with
  | none => (handle, store)
  | some flight =>
    match flight.outcome with
    | some _ => (handle, store)
    | none =>
      let (outcome, store) := ExecutionStore.commit store flight.commit
      ({ handle with flight := some { flight with outcome := some outcome } }, store)

/-- The commit on its way and its outcome, once it is known. -/
def answered? (handle : Handle) (now : Nat) : Option (Commit × Except StoreError Unit) := do
  let flight ← handle.flight
  let outcome ← flight.outcome
  if flight.answersAt ≤ now then some (flight.commit, outcome) else none

/-- Is a commit on its way whose outcome is not known yet? -/
def isBusy (handle : Handle) (now : Nat) : Bool :=
  handle.flight.isSome && (handle.answered? now).isNone

/-- Take over the outcome of a commit: its header and checkpoints, or its error. -/
def settle (handle : Handle) (commit : Commit) :
    Except StoreError Unit → Except EngineError Unit × Handle
  | .ok () => (.ok (), { state := handle.state.committed commit })
  | .error e => (.error (.store e), { handle with flight := none })

/-- Nobody waits for the commit any more, and it is done. -/
def clear (handle : Handle) : Handle := { handle with flight := none }

end Handle

end WorkflowEngine
