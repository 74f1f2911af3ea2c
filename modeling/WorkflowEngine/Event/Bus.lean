import WorkflowEngine.Event.Basic

/-!
# The event bus

A broadcast channel that keeps the newest events only. A receiver gets what was sent after it
subscribed; one that fell behind by more than the capacity is told how many events it lost and goes on
with the oldest one kept. Without a receiver events are dropped, which no receiver can tell.
-/
namespace WorkflowEngine

structure EventBus where
  /-- The number of events kept for receivers that are behind. -/
  capacity : Nat
  /-- Everything sent so far, newest first. -/
  sent : List ExecutionEvent := []
  deriving Inhabited

/-- A receiver's place: the number of events sent before the next one it reads. -/
structure EventReceiver where
  next : Nat
  deriving DecidableEq, Inhabited

/-- What reading yields. -/
inductive Reception where
  | event (event : ExecutionEvent)
  | lagged (missed : Nat)

namespace EventBus

def emit (bus : EventBus) (event : ExecutionEvent) : EventBus :=
  { bus with sent := event :: bus.sent }

def subscribe (bus : EventBus) : EventReceiver := ⟨bus.sent.length⟩

/-- What was sent since a receiver's place, in order. -/
def sentSince (bus : EventBus) (receiver : EventReceiver) : List ExecutionEvent :=
  (bus.sent.take (bus.sent.length - receiver.next)).reverse

/-- Everything a receiver has not read, and the receiver after reading it. -/
def drain (bus : EventBus) (receiver : EventReceiver) : List Reception × EventReceiver :=
  let unread := bus.sent.length - receiver.next
  let missed := unread - bus.capacity
  let events := (bus.sent.take (unread - missed)).reverse.map Reception.event
  (if missed = 0 then events else .lagged missed :: events, bus.subscribe)

end EventBus

/-- Publishes the events of one node of one execution. -/
structure EventEmitter where
  executionId : ExecutionId
  nodeId : NodeId
  deriving DecidableEq

def EventEmitter.wrap (emitter : EventEmitter) (event : NodeEvent) (timestamp : Timestamp) :
    ExecutionEvent :=
  .nodeEvent emitter.executionId emitter.nodeId event timestamp

end WorkflowEngine
