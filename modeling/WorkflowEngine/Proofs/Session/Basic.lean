import WorkflowEngine.Node.Sample
import WorkflowEngine.Proofs.Session.Chronicle
import WorkflowEngine.Proofs.Store.Lawful

/-!
Histories of an engine. A session is an engine on its host with all the calls made of it, each
wherever it stands; one step lets one of them go on, lets time pass, or is something a user does:
another call, a cancellation, a definition registered or removed. Calls are interleaved in any way.
When all calls are over, another engine may take over the store.

Dropping a call before it is over is not covered here.
-/
namespace WorkflowEngine

/-- What an engine is asked for. -/
inductive Request where
  | start (request : StartRequest)
  | resume (request : ResumeRequest)

namespace Request

def call : Request → Call
  | .start request => .starting request
  | .resume request => .resuming request

/-- What is to be set in the context of a resumed execution. -/
def input? : Request → Option Context
  | .start _ => none
  | .resume request => request.input

end Request

/-- A call in progress, with what it was asked for. -/
structure Task where
  request : Request
  call : Call

/-- The execution a call took on. -/
def Call.holds? : Call → Option ExecutionId
  | .loading request => some request.id
  | .loadingLog request _ => some request.id
  | .driving _ run => some run.id
  | _ => none

/-- The execution that nobody else may write. -/
def Call.owns? : Call → Option ExecutionId
  | .created _ state => some state.id
  | .driving _ run => some run.id
  | _ => none

/-- What a step of a call adds to the chronicle of an execution. -/
def Task.deeds (task : Task) (after : Call) : Option (ExecutionId × Chronicle) :=
  match task.call, after with
  | .starting request, .created _ state => some (state.id, [.created request])
  | .driving scope run, .driving _ run' => some (run.id, run.deeds run' scope task.request.input?)
  | _, _ => none

structure Session (σ : Type) where
  engine : Engine
  host : Host σ
  tasks : List Task := []
  chronicles : ExecutionId → Chronicle := fun _ => []

namespace Session

variable {σ : Type} [ExecutionStore σ]

/-- The chronicles after a step of a call. -/
def note (session : Session σ) (task : Task) (after : Call) : ExecutionId → Chronicle :=
  match task.deeds after with
  | some (id, deeds) =>
    Function.update session.chronicles id (session.chronicles id ++ deeds)
  | none => session.chronicles

/-- Somebody makes another call. -/
def ask (session : Session σ) (request : Request) : Session σ :=
  { session with tasks := ⟨request, request.call⟩ :: session.tasks }

inductive Step (session : Session σ) : Session σ → Prop
  | ask (request : Request) : Step session (session.ask request)
  /-- One of the calls goes on. -/
  | advance {task : Task} {others : List Task} {call : Call} {engine : Engine} {host : Host σ}
      (htasks : session.tasks.Perm (task :: others))
      (hnext : task.call.next? session.engine session.host = some (call, engine, host)) :
      Step session
        { engine, host
          tasks := ⟨task.request, call⟩ :: others
          chronicles := session.note task call }
  | wait (time : Nat) : Step session { session with host := session.host.waitUntil time }
  | cancel (id : ExecutionId) : Step session { session with engine := session.engine.cancel id }
  | register {workflow : Workflow} {engine : Engine}
      (hengine : session.engine.register workflow = .ok engine) :
      Step session { session with engine }
  | remove (id : WorkflowId) : Step session { session with engine := session.engine.remove id }
  /-- All calls are over, and another engine takes over the store. -/
  | replace (engine : Engine)
      (hover : ∀ task ∈ session.tasks, ∃ outcome, task.call = .ended outcome)
      (hidle : engine.active = []) : Step session { session with engine }

/-- Let the call made last go on for a number of steps at most, and time pass whenever it waits. -/
def play : (fuel : Nat) → Session σ → Session σ
  | 0, session => session
  | fuel + 1, session =>
    match session.tasks with
    | [] => session
    | task :: others =>
      match task.call.next? session.engine session.host with
      | some (call, engine, host) =>
        play fuel
          { engine, host
            tasks := ⟨task.request, call⟩ :: others
            chronicles := session.note task call }
      | none =>
        match task.call.wakesAt? with
        | some time => play fuel { session with host := session.host.waitUntil time }
        | none => session

/-- What the call made last is about to tell of its run. -/
def result? (session : Session σ) : Option RunResult := do
  let task ← session.tasks.head?
  let (call, _) ← task.call.next? session.engine session.host
  match call with
  | .ended (.ok result) => some result
  | _ => none

theorem result?_cases {session : Session σ} {result : RunResult}
    (h : session.result? = some result) :
    ∃ task ∈ session.tasks, ∃ engine host,
      task.call.next? session.engine session.host = some (.ended (.ok result), engine, host) := by
  unfold result? at h
  cases htasks : session.tasks with
  | nil => simp [htasks] at h
  | cons task others =>
      refine ⟨task, List.mem_cons_self, ?_⟩
      cases hnext : task.call.next? session.engine session.host with
      | none => simp [htasks, hnext] at h
      | some next =>
          obtain ⟨call, engine, host⟩ := next
          simp only [htasks, List.head?_cons, hnext, Option.bind_eq_bind, Option.bind_some] at h
          split at h
          · cases h
            exact ⟨engine, host, rfl⟩
          · cases h

variable [LawfulStore σ]

/-- The sessions that begin with an empty store of some kind. -/
inductive Reachable (Kind : σ → Prop) : Session σ → Prop
  | initial {engine : Engine} {host : Host σ} (hidle : engine.active = [])
      (hempty : ∀ id, LawfulStore.stored host.store id = none) (hkind : Kind host.store) :
      Reachable Kind { engine, host }
  | step {session later : Session σ} (h : Reachable Kind session) (hstep : session.Step later) :
      Reachable Kind later

theorem Reachable.ask {Kind : σ → Prop} {session : Session σ} (h : Reachable Kind session)
    (request : Request) : Reachable Kind (session.ask request) :=
  h.step (.ask request)

theorem Reachable.play {Kind : σ → Prop} (fuel : Nat) {session : Session σ}
    (h : Reachable Kind session) : Reachable Kind (session.play fuel) := by
  induction fuel generalizing session with
  | zero => exact h
  | succ fuel ih =>
      unfold Session.play
      cases htasks : session.tasks with
      | nil => exact h
      | cons task others =>
          cases hnext : task.call.next? session.engine session.host with
          | some next =>
              obtain ⟨call, engine, host⟩ := next
              simp only [hnext]
              exact ih (h.step (.advance (List.Perm.of_eq htasks) hnext))
          | none =>
              cases hwakes : task.call.wakesAt? with
              | some time =>
                  simp only [hnext, hwakes]
                  have hlater := ih (h.step (.wait time))
                  rwa [htasks] at hlater
              | none =>
                  simp only [hnext, hwakes]
                  exact h

/-- What readers of the store see. -/
def stored (session : Session σ) (id : ExecutionId) : Option StoredExecution :=
  LawfulStore.stored session.host.store id

end Session

namespace Sample

/-- A step on each side of a pause. -/
def gated : Workflow where
  id := "gated"
  nodes := [⟨"first", "test.step", none, [], none⟩, ⟨"gate", "test.wait", none, [], none⟩,
    ⟨"last", "test.step", none, [], none⟩]
  connections := [⟨"first", "gate", defaultPort, defaultPort⟩,
    ⟨"gate", "last", defaultPort, defaultPort⟩]

/-- A step alone. -/
def single : Workflow where
  id := "single"
  nodes := [⟨"only", "test.step", none, [], none⟩]
  connections := []

/-- The visits a context tells of. -/
def trail (context : Context) : List String :=
  match context.get? trailKey with
  | some (.array items) => items.filterMap Value.asString?
  | _ => []

/-- An engine for sample nodes on an empty store. -/
def session (plan : FaultPlan) : Session (FaultyStore MemoryStore) where
  engine := { registry }
  host := { store := { inner := {}, plan }, bus := default }

theorem reachable_session {Kind : FaultyStore MemoryStore → Prop} {plan : FaultPlan}
    (hkind : Kind { inner := {}, plan }) : Session.Reachable Kind (session plan) :=
  .initial rfl (fun _ => rfl) hkind

/-- The first identifier drawn. -/
def firstId : ExecutionId := Uuid.version4 0

def start (workflow : Workflow) : Request := .start ⟨workflow, "user", []⟩

def resume (workflow : Workflow) : Request := .resume { id := firstId, workflow := some workflow }

theorem reachable_start {Kind : FaultyStore MemoryStore → Prop} {plan : FaultPlan}
    (hkind : Kind { inner := {}, plan }) (workflow : Workflow) (steps : Nat) :
    Session.Reachable Kind (((session plan).ask (start workflow)).play steps) :=
  ((reachable_session hkind).ask (start workflow)).play steps

end Sample

end WorkflowEngine
