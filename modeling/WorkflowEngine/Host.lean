import WorkflowEngine.Event.Bus
import WorkflowEngine.State.Handle

/-!
# The host of runs

What runs share with everything else in their process: the store, the event bus, the clock and the
supply of identifiers. Whatever runs side by side acts on one host, one step after the other.
-/
namespace WorkflowEngine

structure Host (σ : Type) where
  store : σ
  bus : EventBus
  supply : Supply := {}
  /-- Milliseconds since the host began. -/
  now : Nat := 0
  /-- How often each node type was called. -/
  calls : Fields Nat := []
  /-- Calls of nodes that took notice of their cancellation. -/
  noticed : Nat := 0

namespace Host

variable {σ : Type}

/-- The time of day, which differs at every reading. -/
def stamp (host : Host σ) : Timestamp × Host σ :=
  let (now, supply) := host.supply.now
  (now, { host with supply })

def drawId (host : Host σ) : Uuid × Host σ :=
  let (id, supply) := host.supply.drawId
  (id, { host with supply })

/-- Publish an event that happens now. -/
def announce (host : Host σ) (event : Timestamp → ExecutionEvent) : Host σ :=
  let (now, host) := host.stamp
  { host with bus := host.bus.emit (event now) }

/-- Let time pass until a given moment, unless it is over. -/
def waitUntil (host : Host σ) (time : Nat) : Host σ :=
  { host with now := max host.now time, supply := host.supply.elapse (time - host.now) }

/-- Count a call of a node type; the number of calls before it. -/
def countCall (host : Host σ) (nodeType : String) : Nat × Host σ :=
  let earlier := (host.calls.get? nodeType).getD 0
  (earlier, { host with calls := host.calls.insert nodeType (earlier + 1) })

/-- Count the calls that take notice of a cancellation. -/
def notice (host : Host σ) (count : Nat) : Host σ := { host with noticed := host.noticed + count }

end Host

namespace Handle

variable {σ : Type} [ExecutionStore σ]

/-- Ask for the commit of the working copy as it is, with a checkpoint if there is one. -/
def persist (handle : Handle) (checkpoint : Option Checkpoint) (host : Host σ) :
    Handle × Host σ :=
  let (now, host) := host.stamp
  (handle.send (handle.state.commit checkpoint now) host.now (ExecutionStore.latency host.store),
    host)

/-- The next checkpoint of the working copy. -/
def takeCheckpoint (handle : Handle) (nodeId : NodeId) (nodeName : String) (pending : List NodeId)
    (error : Option String) (host : Host σ) : Checkpoint × Host σ :=
  let (id, host) := host.drawId
  let (now, host) := host.stamp
  (handle.state.newCheckpoint id now nodeId nodeName pending error, host)

/-- Let the commit on its way take effect, if its time has come; nothing, if there is none. -/
def land? (handle : Handle) (host : Host σ) : Option (Handle × Host σ) := do
  let flight ← handle.flight
  if flight.outcome.isNone && flight.landsAt ≤ host.now then
    let (handle, store) := handle.land host.store
    some (handle, { host with store })
  else none

/-- When the commit on its way next makes a difference. -/
def wakesAt? (handle : Handle) : Option Nat :=
  handle.flight.map fun flight => if flight.outcome.isNone then flight.landsAt else flight.answersAt

end Handle

end WorkflowEngine
