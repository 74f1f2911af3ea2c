import WorkflowEngine.Engine.Timeline
import WorkflowEngine.Proofs.Session.Basic
import WorkflowEngine.Proofs.Store.Exact

/-!
# Sessions on files

A session on files goes the way of a session in memory, step by step, as long as every record is read
back as it was written.
-/
namespace WorkflowEngine

open Host FileStore

variable {host : Host MemoryStore} {store : FileStore} {engine : Engine}

namespace Handle

/-- A commit takes effect in files as it does in memory. -/
theorem land?_over {handle : Handle} (mirrors : Mirrors host.store store)
    (exact : ∀ next ∈ handle.land? host, next.2.store.Exact) :
    ∃ after, handle.land? (host.over store) = (handle.land? host).map (carry after) ∧
      ∀ next ∈ handle.land? host, Mirrors next.2.store after := by
  rw [land?_eq] at exact ⊢
  rw [land?_eq]
  change ∃ after, (handle.due? host.now).map _ = _ ∧ _
  cases due : handle.due? host.now with
  | none => exact ⟨store, rfl, fun next mem => by cases mem⟩
  | some flight =>
    rw [due, Option.map_some] at exact
    obtain ⟨answer, after⟩ := @Mirrors.perform _ _ (.commit flight.commit) mirrors (exact _ rfl)
    refine ⟨_, congrArg (fun answer => some (handle.told flight answer, _)) answer, ?_⟩
    rintro next ⟨⟩
    exact after

/-- A new execution is put into files as it is put into memory. -/
theorem create_over (workflowId : WorkflowId) (userId : String) (context : Context) (totalSteps : Nat)
    (mirrors : Mirrors host.store store)
    (exact : (create workflowId userId context totalSteps host).2.store.Exact) :
    ∃ after, create workflowId userId context totalSteps (host.over store) =
        carry after (create workflowId userId context totalSteps host) ∧
      Mirrors (create workflowId userId context totalSteps host).2.store after := by
  rw [create_eq] at exact ⊢
  rw [create_eq]
  obtain ⟨answer, after⟩ := @Mirrors.perform _ _
    (.insert (host.newHeader workflowId userId context totalSteps)) mirrors exact
  exact ⟨_, congrArg (fun answer => (created _ answer, _)) answer, after⟩

end Handle

namespace Run

/-- The next thing in a run. -/
theorem next?_over {run : Run} {scope : Scope} (mirrors : Mirrors host.store store)
    (exact : ∀ next ∈ run.next? scope host, next.2.store.Exact) :
    ∃ after, run.next? scope (host.over store) = (run.next? scope host).map (carry after) ∧
      ∀ next ∈ run.next? scope host, Mirrors next.2.store after := by
  have same : run.interruption? (host.over store) = run.interruption? host := rfl
  unfold next? at exact ⊢
  rw [same]
  cases cause : run.interruption? host with
  | some cause =>
    refine ⟨store, rfl, ?_⟩
    rintro next ⟨⟩
    exact mirrors
  | none =>
    rw [cause] at exact
    dsimp only at exact ⊢
    unfold land? at exact ⊢
    cases landing : run.handle.land? host with
    | some next =>
      rw [landing] at exact
      obtain ⟨after, lands, mirrors⟩ := @Handle.land?_over _ _ run.handle mirrors <| by
        rw [landing]
        rintro next ⟨⟩
        exact exact _ rfl
      rw [landing] at lands mirrors
      refine ⟨after, ?_, ?_⟩
      · rw [lands]
        rfl
      · rintro last ⟨⟩
        exact mirrors next rfl
    | none =>
      obtain ⟨after, lands, -⟩ := @Handle.land?_over _ _ run.handle mirrors <| by
        rw [landing]
        rintro next ⟨⟩
      rw [landing] at lands
      refine ⟨store, ?_, fun next taken => ?_⟩
      · rw [lands]
        exact step?_over mirrors.tells
      · rw [store_of_step? (show run.step? scope host = some next from taken)]
        exact mirrors

end Run

namespace Call

/-- The next thing in a call. -/
theorem next?_over {call : Call} (mirrors : Mirrors host.store store)
    (exact : ∀ next ∈ call.next? engine host, next.2.2.store.Exact) :
    ∃ after, call.next? engine (host.over store) =
        (call.next? engine host).map (fun next => (next.1, next.2.1, next.2.2.over after)) ∧
      ∀ next ∈ call.next? engine host, Mirrors next.2.2.store after := by
  -- most of what a call does leaves the store alone
  have still {next : Call × Engine × Host MemoryStore} {onFiles : Option (Call × Engine × Host FileStore)}
      (same : next.2.2.store = host.store) (goes : onFiles = some (next.1, next.2.1, next.2.2.over store)) :
      ∃ after, onFiles = (some next).map (fun next => (next.1, next.2.1, next.2.2.over after)) ∧
        ∀ last ∈ some next, Mirrors last.2.2.store after := by
    refine ⟨store, goes, ?_⟩
    rintro last ⟨⟩
    rwa [same]
  cases call with
  | starting request =>
    simp only [next?] at exact ⊢
    cases accepted : engine.accept request.workflow with
    | error cause => exact still rfl rfl
    | ok _ =>
      rw [accepted] at exact
      dsimp only at exact ⊢
      have creates := @Handle.create_over _ _ request.workflow.id request.userId request.context
        (engine.totalSteps request.workflow) mirrors
      rcases created : Handle.create request.workflow.id request.userId request.context
        (engine.totalSteps request.workflow) host with ⟨_ | handle, last⟩
      all_goals
        rw [created] at exact creates
        simp only [Option.mem_some_iff, forall_eq'] at exact
        obtain ⟨after, goes, mirrors⟩ := creates exact
        rw [goes]
        refine ⟨after, rfl, ?_⟩
        rintro next ⟨⟩
        exact mirrors
  | created request state =>
    simp only [next?]
    cases engine.activate state.id with
    | error cause => exact still rfl rfl
    | ok engine => exact still rfl rfl
  | resuming request =>
    simp only [next?]
    cases engine.activate request.id with
    | error cause => exact still rfl rfl
    | ok engine => exact still rfl rfl
  | loading request =>
    simp only [next?]
    rw [show ExecutionStore.loadHeader (host.over store).store request.id = _ from
      mirrors.tells.loadHeader request.id]
    rcases ExecutionStore.loadHeader host.store request.id with e | found | header
    · exact still rfl rfl
    · exact still rfl rfl
    · exact still rfl rfl
  | loadingLog request header =>
    simp only [next?]
    rw [show ExecutionStore.loadCheckpoints (host.over store).store request.id 0 = _ from
      mirrors.tells.loadCheckpoints request.id 0]
    cases ExecutionStore.loadCheckpoints host.store request.id 0 with
    | error e => exact still rfl rfl
    | ok log =>
      dsimp only
      cases prepareResume engine request (.ofRecord (ExecutionStore.assemble header log)) with
      | error cause => exact still rfl rfl
      | ok prepared => exact still rfl rfl
  | driving scope run =>
    simp only [next?] at exact ⊢
    generalize { run with cancelled := run.cancelled || engine.isCancelled run.id } = run at exact ⊢
    cases ends : run.result? with
    | some result => exact still rfl rfl
    | none =>
      rw [ends] at exact
      dsimp only at exact ⊢
      obtain ⟨after, goes, mirrors⟩ := @Run.next?_over _ _ run scope mirrors fun next mem =>
        exact _ (Option.mem_map_of_mem _ mem)
      refine ⟨after, ?_, fun next mem => ?_⟩
      · rw [goes, Option.map_map, Option.map_map]
        rfl
      · obtain ⟨last, taken, rfl⟩ := Option.map_eq_some_iff.mp mem
        exact mirrors last taken
  | ended outcome =>
    refine ⟨store, rfl, ?_⟩
    rintro next ⟨⟩

end Call

theorem Host.waitUntil_over (mirrors : Mirrors host.store store) (time : Nat) :
    (host.over store).waitUntil time = (host.waitUntil time).over store ∧
      Mirrors (host.waitUntil time).store store := by
  -- Without unfolding, the two hosts are compared first, and their clocks.
  unfold Host.waitUntil
  exact ⟨rfl, mirrors⟩

/-- A call goes the same way and as far. -/
theorem Call.play_over (fuel : Nat) {call : Call} (mirrors : Mirrors host.store store)
    (exact : ∀ n ≤ fuel, (call.play n engine host).2.2.store.Exact) :
    ∃ after, call.play fuel engine (host.over store) =
        ((call.play fuel engine host).1, (call.play fuel engine host).2.1,
          (call.play fuel engine host).2.2.over after) ∧
      Mirrors (call.play fuel engine host).2.2.store after := by
  induction fuel generalizing call engine host store with
  | zero => exact ⟨store, rfl, mirrors⟩
  | succ fuel ih =>
    have first := exact 1 (by omega)
    have later (n : Nat) (le : n ≤ fuel) := exact (n + 1) (by omega)
    obtain ⟨after, goes, mirrored⟩ := @Call.next?_over _ _ engine call mirrors <| by
      rintro ⟨call, engine, host⟩ taken
      rw [play, Option.mem_def.mp taken] at first
      exact first
    rw [play, play, goes]
    cases taken : call.next? engine host with
    | some next =>
      simp only [play, taken] at later
      exact ih (mirrored next taken) later
    | none =>
      cases wakes : call.wakesAt? with
      | none => exact ⟨store, rfl, mirrors⟩
      | some time =>
        simp only [play, taken, wakes] at later
        obtain ⟨goes, mirrors⟩ := Host.waitUntil_over mirrors time
        simp only [Option.map_none, goes]
        exact ih mirrors later

namespace Session

/-- The session with a store in files in place of its own. -/
def onFiles (session : Session MemoryStore) (store : FileStore) : Session FileStore where
  engine := session.engine
  host := session.host.over store
  tasks := session.tasks
  chronicles := session.chronicles

variable {session later : Session MemoryStore}

/-- Whatever happens to a session in memory happens to one on files. -/
theorem Step.onFiles (mirrors : Mirrors session.host.store store) (step : session.Step later)
    (exact : later.host.store.Exact) :
    ∃ after, (session.onFiles store).Step (later.onFiles after) ∧ Mirrors later.host.store after := by
  cases step with
  | ask request => exact ⟨store, .ask request, mirrors⟩
  | @advance task others call engine host tasks taken =>
    obtain ⟨after, goes, mirrors⟩ := @Call.next?_over _ _ session.engine task.call mirrors <| by
      rw [taken]
      rintro next ⟨⟩
      exact exact
    rw [taken] at goes mirrors
    exact ⟨after, .advance tasks goes, mirrors _ rfl⟩
  | wait time =>
    obtain ⟨goes, mirrors⟩ := Host.waitUntil_over mirrors time
    have waits := @Step.wait _ _ (session.onFiles store) time
    rw [show (session.onFiles store).host.waitUntil time = _ from goes] at waits
    exact ⟨store, waits, mirrors⟩
  | cancel id => exact ⟨store, .cancel id, mirrors⟩
  | register accepted => exact ⟨store, .register accepted, mirrors⟩
  | remove id => exact ⟨store, .remove id, mirrors⟩
  | replace engine ended idle => exact ⟨store, .replace engine ended idle, mirrors⟩

/-- The next thing in the call made last, or the time it waits for. -/
def onward? {σ : Type} [ExecutionStore σ] (session : Session σ) : Option (Session σ) :=
  match session.tasks with
  | [] => none
  | task :: others =>
    match task.call.next? session.engine session.host with
    | some (call, engine, host) =>
      some
        { engine, host
          tasks := ⟨task.request, call⟩ :: others
          chronicles := session.note task call }
    | none => task.call.wakesAt?.map fun time => { session with host := session.host.waitUntil time }

theorem play_eq_onward {σ : Type} [ExecutionStore σ] (fuel : Nat) (session : Session σ) :
    session.play (fuel + 1) = (session.onward?.map (play fuel)).getD session := by
  rw [play, onward?]
  cases session.tasks with
  | nil => rfl
  | cons task others =>
    dsimp only
    cases task.call.next? session.engine session.host with
    | some next => rfl
    | none =>
      dsimp only
      cases task.call.wakesAt? <;> rfl

theorem onward?_over (mirrors : Mirrors session.host.store store)
    (exact : ∀ next ∈ session.onward?, next.host.store.Exact) :
    ∃ after, (session.onFiles store).onward? = session.onward?.map (·.onFiles after) ∧
      ∀ next ∈ session.onward?, Mirrors next.host.store after := by
  unfold onward? at exact ⊢
  rw [show (session.onFiles store).tasks = session.tasks from rfl]
  cases tasks : session.tasks with
  | nil =>
    refine ⟨store, rfl, ?_⟩
    rintro next ⟨⟩
  | cons task others =>
    rw [tasks] at exact
    dsimp only at exact ⊢
    obtain ⟨after, goes, mirrored⟩ := @Call.next?_over _ _ session.engine task.call mirrors <| by
      rintro ⟨call, engine, host⟩ taken
      rw [Option.mem_def.mp taken] at exact
      exact exact _ rfl
    rw [show task.call.next? (session.onFiles store).engine (session.onFiles store).host = _ from goes]
    cases taken : task.call.next? session.engine session.host with
    | some next =>
      refine ⟨after, rfl, ?_⟩
      rintro later ⟨⟩
      exact mirrored next taken
    | none =>
      dsimp only [Option.map_none]
      cases task.call.wakesAt? with
      | none =>
        refine ⟨store, rfl, ?_⟩
        rintro next ⟨⟩
      | some time =>
        obtain ⟨goes, mirrors⟩ := Host.waitUntil_over mirrors time
        refine ⟨store, ?_, ?_⟩
        · rw [Option.map_some, show (session.onFiles store).host.waitUntil time = _ from goes]
          rfl
        · rintro next ⟨⟩
          exact mirrors

/-- A call goes the same way and as far. -/
theorem play_over (fuel : Nat) (mirrors : Mirrors session.host.store store)
    (exact : ∀ n ≤ fuel, (session.play n).host.store.Exact) :
    ∃ after, (session.onFiles store).play fuel = (session.play fuel).onFiles after ∧
      Mirrors (session.play fuel).host.store after := by
  induction fuel generalizing session store with
  | zero => exact ⟨store, rfl, mirrors⟩
  | succ fuel ih =>
    obtain ⟨after, goes, mirrored⟩ := @onward?_over _ session mirrors <| by
      intro next taken
      have first := exact 1 (by omega)
      rw [play_eq_onward, taken] at first
      exact first
    rw [play_eq_onward, play_eq_onward, goes]
    cases taken : session.onward? with
    | none => exact ⟨store, rfl, mirrors⟩
    | some next =>
      refine ih (mirrored next taken) fun n le => ?_
      have later := exact (n + 1) (by omega)
      rw [play_eq_onward, taken] at later
      exact later

end Session

end WorkflowEngine
