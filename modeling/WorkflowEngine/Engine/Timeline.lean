import WorkflowEngine.Engine.Call

/-!
# Calls in time

A call on its own goes on until nothing can happen without waiting, then the clock jumps to the next
moment at which something can. A timeline adds what others do to the execution at given times after
the call began: at such a moment they go first. Each of them is done when the one before it is done,
also after the call is over.
-/
namespace WorkflowEngine

/-- What is done to the execution that a call runs. -/
inductive Intervention where
  | cancel
  | isActive
  | resume
  | getState
  deriving DecidableEq, Inhabited

/-- An intervention at a number of milliseconds after the call began. -/
structure Appointment where
  ms : Nat
  intervention : Intervention
  deriving DecidableEq, Inhabited

/-- What an intervention found. -/
inductive Observation where
  /-- Was the execution active, and so is cancelled? -/
  | cancelled (active : Bool)
  | activity (active : Bool)
  | resumed (outcome : Except EngineError RunResult)
  | state (record : Except EngineError ExecutionRecord)
  /-- The call runs no execution. -/
  | notStarted

namespace Call

variable {σ : Type} [ExecutionStore σ]

/-- Let a call go on by itself for a number of steps at most. It is over, unless they do not suffice
or it waits for ever. -/
def play : (fuel : Nat) → Call → Engine → Host σ → Call × Engine × Host σ
  | 0, call, engine, host => (call, engine, host)
  | fuel + 1, call, engine, host =>
    match call.next? engine host with
    | some (call, engine, host) => play fuel call engine host
    | none =>
      match call.wakesAt? with
      | some time => play fuel call engine (host.waitUntil time)
      | none => (call, engine, host)

/-- More steps than a call takes. -/
def stepBound : Nat := 1000000000000

/-- Play a call to its end. -/
def perform (call : Call) (engine : Engine) (host : Host σ) :
    Except EngineError RunResult × Engine × Host σ :=
  let (call, engine, host) := call.play stepBound engine host
  (call.outcome?.getD (.error (.io "the call does not end")), engine, host)

end Call

/-- A call, what is still to be done to its execution, and what was found so far, newest first. -/
structure Timeline (σ : Type) where
  call : Call
  engine : Engine
  host : Host σ
  beganAt : Nat
  /-- The execution the call runs, once it does. -/
  started : Option ExecutionId := none
  appointments : List Appointment
  observations : List Observation := []

namespace Timeline

variable {σ : Type} [ExecutionStore σ]

def begin (call : Call) (appointments : List Appointment) (engine : Engine) (host : Host σ) :
    Timeline σ :=
  { call, engine, host, beganAt := host.now, appointments }

/-- Do one thing to the execution. -/
def intervene (timeline : Timeline σ) (id : ExecutionId) : Intervention → Observation × Timeline σ
  | .cancel =>
    (.cancelled (timeline.engine.isActive id),
      { timeline with engine := timeline.engine.cancel id })
  | .isActive => (.activity (timeline.engine.isActive id), timeline)
  | .resume =>
    let (outcome, engine, host) := (Call.resuming { id }).perform timeline.engine timeline.host
    (.resumed outcome, { timeline with engine, host })
  | .getState => (.state (Engine.getState timeline.host id), timeline)

/-- Keep the next appointment. -/
def keep (timeline : Timeline σ) (appointment : Appointment) (rest : List Appointment) :
    Timeline σ :=
  let (observation, timeline) :=
    match timeline.started with
    | some id => timeline.intervene id appointment.intervention
    | none => (.notStarted, timeline)
  { timeline with
    appointments := rest
    observations := observation :: timeline.observations }

/-- Let the call take a step. -/
def advance? (timeline : Timeline σ) : Option (Timeline σ) :=
  (timeline.call.next? timeline.engine timeline.host).map fun (call, engine, host) =>
    { timeline with
      call, engine, host
      started := timeline.started <|> call.running? }

/-- When an appointment is due. -/
def dueAt (timeline : Timeline σ) (appointment : Appointment) : Nat :=
  timeline.beganAt + appointment.ms

/-- The next thing that happens at this moment. At the moment the call begins it goes first; later an
appointment does. -/
def next? (timeline : Timeline σ) : Option (Timeline σ) :=
  match timeline.appointments with
  | [] => timeline.advance?
  | appointment :: rest =>
    if timeline.dueAt appointment ≤ timeline.host.now then
      if timeline.host.now = timeline.beganAt then
        timeline.advance? <|> some (timeline.keep appointment rest)
      else some (timeline.keep appointment rest)
    else timeline.advance?

/-- When something next happens. -/
def wakesAt? (timeline : Timeline σ) : Option Nat :=
  ((timeline.appointments.head?.map timeline.dueAt).toList ++
    timeline.call.wakesAt?.toList).min?

def play : (fuel : Nat) → Timeline σ → Timeline σ
  | 0, timeline => timeline
  | fuel + 1, timeline =>
    match timeline.next? with
    | some timeline => play fuel timeline
    | none =>
      match timeline.wakesAt? with
      | some time => play fuel { timeline with host := timeline.host.waitUntil time }
      | none => timeline

/-- What a timeline comes to. -/
structure Ending (σ : Type) where
  outcome : Except EngineError RunResult
  observations : List Observation
  engine : Engine
  host : Host σ

/-- Play a call and all appointments to the end. -/
def perform (timeline : Timeline σ) : Ending σ :=
  let timeline := timeline.play Call.stepBound
  { outcome := timeline.call.outcome?.getD (.error (.io "the call does not end"))
    observations := timeline.observations.reverse
    engine := timeline.engine
    host := timeline.host }

end Timeline

namespace Run

variable {σ : Type} [ExecutionStore σ]

/-- Let a run go on by itself for a number of steps at most. -/
def play (scope : Scope) : (fuel : Nat) → Run → Host σ → Run × Host σ
  | 0, run, host => (run, host)
  | fuel + 1, run, host =>
    match run.next? scope host with
    | some (run, host) => play scope fuel run host
    | none =>
      match run.wakesAt? with
      | some time => play scope fuel run (host.waitUntil time)
      | none => (run, host)

/-- Play a run to its end. -/
def perform (scope : Scope) (run : Run) (host : Host σ) :
    Except EngineError ExecutionStatus × Run × Host σ :=
  let (run, host) := run.play scope Call.stepBound host
  (run.result?.getD (.error (.io "the run does not end")), run, host)

end Run

end WorkflowEngine
