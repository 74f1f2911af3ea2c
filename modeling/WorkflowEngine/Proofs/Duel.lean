import WorkflowEngine.Proofs.Session.Agreement
import WorkflowEngine.Proofs.Session.Passage

/-!
Two engines that resume one execution. They share nothing but the store, and each has its own clock,
its own bus and its own list of what it runs, so neither knows of the other. Who writes first wins: the
other one's commits expect a version that is gone.

An interruption is different. A run that is interrupted takes over what is stored before its failure is
recorded, whoever stored it, and so the loser's cancellation or deadline can still write, namely that
the winner's execution failed.
-/
namespace WorkflowEngine

/-- The same process with another store. -/
def Host.on {τ σ : Type} (host : Host τ) (store : σ) : Host σ where
  store := store
  bus := host.bus
  supply := host.supply
  now := host.now
  calls := host.calls
  noticed := host.noticed

namespace Run

/-- A run of an execution commits to that execution only, and every time the next version. -/
structure Sound (id : ExecutionId) (run : Run) : Prop where
  own : run.id = id
  commits : ∀ flight, run.handle.flight = some flight →
    flight.commit.header.id = id ∧ flight.commit.header.version = flight.commit.expected + 1
  stands :
    match run.stage with
    | .entering => run.state.status.canBecome .running = true
    | .dispatching => run.state.status = .running
    | .executing _ => run.state.status = .running
    | .committing purpose => purpose.next = .dispatching →
      ∀ flight, run.handle.flight = some flight → flight.commit.header.status = .running
    | .catchingUp _ stored => stored.id = id
    | _ => True

/-- Where a run stands that has not written since it read a version below the bound, by its stage: it
writes below the bound, if it was not interrupted. -/
def Trails (bound : Nat) (run : Run) : Prop :=
  match run.stage with
  | .entering => run.handle.flight = none ∧ run.state.header.version < bound
  | .committing purpose =>
    (∃ cause, purpose = .abort cause ∧ cause.isInterruption = true ∧
      ∀ flight, run.handle.flight = some flight → flight.commit.header.status = .failed) ∨
    (purpose = .entry ∨ ∃ cause, purpose = .abort cause) ∧ run.state.header.version < bound ∧
      ∀ flight, run.handle.flight = some flight →
        flight.commit.expected < bound ∧ flight.outcome ≠ some (.ok ())
  | .settling cause =>
    cause.isInterruption = true ∧
      ∀ flight, run.handle.flight = some flight → flight.commit.expected < bound
  | .catchingUp cause _ => run.handle.flight = none ∧ cause.isInterruption = true
  | .aborting cause =>
    run.handle.flight = none ∧ (cause.isInterruption = true ∨ run.state.header.version < bound)
  | .finished _ => run.handle.flight = none
  | _ => False

section

variable {σ : Type} [ExecutionStore σ] {id : ExecutionId} {bound : Nat} {scope : Scope}
  {run run' : Run} {host host' : Host σ}

theorem Sound.legal (h : run.Sound id) : run.Legal := by
  have hstands := h.stands
  unfold Legal
  cases hstage : run.stage <;> simp only [hstage] at hstands ⊢ <;> exact hstands

private theorem Sound.ask (h : run.Sound id) {demand : Demand} {flight : Flight}
    {time : Timestamp} (hdemand : run.Demands scope demand)
    (hcommit : flight.commit = demand.state.commit demand.checkpoint time) :
    Sound id { run with
      handle := ⟨demand.state, some flight⟩
      queue := demand.queue
      dispatched := demand.dispatched
      stage := .committing demand.purpose } := by
  have hid : demand.state.header.id = id := by
    obtain ⟨_, _, _, _, hstate⟩ := hdemand.state_eq
    rw [hstate]
    exact h.own
  refine ⟨hid, ?_, ?_⟩
  · intro other hother
    cases hother
    rw [hcommit]
    exact ⟨hid, rfl⟩
  · intro hnext other hother
    cases hother
    rw [hcommit]
    exact hdemand.running h.legal hnext

private theorem Sound.settle (h : run.Sound id) {purpose : Purpose} {flight : Flight}
    (hstage : run.stage = .committing purpose) (hflight : run.handle.flight = some flight) :
    Sound id { run with
      handle := ⟨run.state.committed flight.commit, none⟩
      queue := run.queue ++ purpose.successors
      stage := purpose.next } := by
  refine ⟨(h.commits flight hflight).1, ?_, ?_⟩
  · intro other hother
    cases hother
  · have hstands := h.stands
    simp only [hstage] at hstands
    cases purpose with
    | entry | completion => exact hstands rfl flight hflight
    | pause | failure | conclusion | abort => exact trivial

theorem Sound.act [LawfulStore σ] (h : run.Sound id) (hact : run.Act scope host run') :
    run'.Sound id := by
  have hnone : ∀ flight, (none : Option Flight) = some flight →
      flight.commit.header.id = id ∧ flight.commit.header.version = flight.commit.expected + 1 := by
    intro flight hflight
    cases hflight
  have hstands := h.stands
  cases hact with
  | interrupt => exact ⟨h.own, h.commits, trivial⟩
  | ask time hdemand hcommit => exact h.ask hdemand hcommit
  | skip hstage =>
      simp only [hstage] at hstands
      refine ⟨h.own, h.commits, ?_⟩
      simp only [hstage]
      exact hstands
  | call _ hstage | unfold hstage =>
      simp only [hstage] at hstands
      exact ⟨h.own, h.commits, hstands⟩
  | settle hstage hflight => exact h.settle hstage hflight
  | @refuse purpose =>
      refine ⟨h.own, hnone, ?_⟩
      cases purpose <;> trivial
  | compare => exact ⟨h.own, hnone, trivial⟩
  | @fallBehind cause stored hstage hidle hload =>
      refine ⟨h.own, hnone, ?_⟩
      obtain ⟨execution, hstored, rfl⟩ :=
        Option.map_eq_some_iff.mp (LawfulStore.loadHeader_ok hload).symm
      exact (LawfulStore.stored_id hstored).trans h.own
  | adopt hstage =>
      simp only [hstage] at hstands
      exact ⟨hstands, h.commits, trivial⟩
  | stayBehind | close => exact ⟨h.own, h.commits, trivial⟩
  | stray hillegal => exact absurd h.legal hillegal

theorem Sound.land (h : run.Sound id) (hlands : run.Lands host run' host') : run'.Sound id := by
  obtain ⟨hflight, houtcome, -⟩ := hlands
  rename_i flight
  refine ⟨h.own, ?_, ?_⟩
  · intro other hother
    cases hother
    exact h.commits flight hflight
  · have hstands := h.stands
    cases hstage : run.stage <;> simp only [hstage] at hstands ⊢ <;> try exact hstands
    intro hnext other hother
    cases hother
    exact hstands hnext flight hflight

/-- Only a run that has not written yet asks for its first commit, or is given up. -/
private theorem Trails.ask (h : run.Trails bound) {demand : Demand} {flight : Flight}
    {time : Timestamp} (hdemand : run.Demands scope demand)
    (hcommit : flight.commit = demand.state.commit demand.checkpoint time)
    (houtcome : flight.outcome = none) :
    Trails bound { run with
      handle := ⟨demand.state, some flight⟩
      queue := demand.queue
      dispatched := demand.dispatched
      stage := .committing demand.purpose } := by
  have hversion : demand.state.header.version = run.state.header.version := by
    obtain ⟨_, _, _, _, hstate⟩ := hdemand.state_eq
    rw [hstate]
  have hbelow : run.state.header.version < bound → demand.state.header.version < bound ∧
      ∀ other, some flight = some other →
        other.commit.expected < bound ∧ other.outcome ≠ some (.ok ()) := by
    intro hless
    rw [← hversion] at hless
    refine ⟨hless, ?_⟩
    intro other hother
    cases hother
    rw [hcommit, houtcome]
    exact ⟨hless, by simp⟩
  have hfailed := hdemand.failed
  cases hdemand with
  | entry hstage =>
      simp only [Trails, hstage] at h
      exact Or.inr ⟨Or.inl rfl, hbelow h.2⟩
  | conclusion hstage | completion _ _ _ hstage | pause _ _ hstage => simp [Trails, hstage] at h
  | failure _ _ hfails =>
      cases hfails with
      | unknown hstage | missing hstage | failed hstage => simp [Trails, hstage] at h
  | abandonment hstage =>
      simp only [Trails, hstage] at h
      rcases h.2 with hcause | hless
      · refine Or.inl ⟨_, rfl, hcause, ?_⟩
        intro other hother
        cases hother
        rw [hcommit]
        exact hfailed rfl
      · exact Or.inr ⟨Or.inr ⟨_, rfl⟩, hbelow hless⟩

/-- The commit of a run that trails records its interruption, or is below the bound. -/
private theorem Trails.flying (h : run.Trails bound) {flight : Flight}
    (hflight : run.handle.flight = some flight) :
    (∃ cause, run.stage = .committing (.abort cause) ∧ cause.isInterruption = true ∧
      flight.commit.header.status = .failed) ∨
    (∃ purpose, run.stage = .committing purpose ∧
      (purpose = .entry ∨ ∃ cause, purpose = .abort cause) ∧ run.state.header.version < bound ∧
      flight.commit.expected < bound ∧ flight.outcome ≠ some (.ok ())) ∨
    ∃ cause, run.stage = .settling cause ∧ cause.isInterruption = true ∧
      flight.commit.expected < bound := by
  cases hstage : run.stage with
  | committing purpose =>
      simp only [Trails, hstage] at h
      obtain ⟨cause, rfl, hcause, hfailed⟩ | ⟨hpurpose, hless, hbelow⟩ := h
      · exact Or.inl ⟨cause, rfl, hcause, hfailed flight hflight⟩
      · exact Or.inr (Or.inl ⟨purpose, rfl, hpurpose, hless, hbelow flight hflight⟩)
  | settling cause =>
      simp only [Trails, hstage] at h
      exact Or.inr (Or.inr ⟨cause, rfl, h.1, h.2 flight hflight⟩)
  | entering | catchingUp | aborting =>
      simp only [Trails, hstage] at h
      rw [h.1] at hflight
      cases hflight
  | finished =>
      simp only [Trails, hstage] at h
      rw [h] at hflight
      cases hflight
  | dispatching | executing => simp [Trails, hstage] at h

theorem Trails.act (h : run.Trails bound) (hlegal : run.Legal)
    (hact : run.Act scope host run') : run'.Trails bound := by
  cases hact with
  | interrupt cause hopen hcause =>
      refine ⟨hcause, ?_⟩
      intro flight hflight
      obtain ⟨_, hstage, -⟩ | ⟨_, -, -, -, hexpected, -⟩ | ⟨_, -, -, hexpected⟩ := h.flying hflight
      · simp [isInterruptible, hstage] at hopen
      · exact hexpected
      · exact hexpected
  | ask time hdemand hcommit houtcome => exact h.ask hdemand hcommit houtcome
  | skip hstage | call _ hstage | unfold hstage => simp [Trails, hstage] at h
  | settle hstage hflight houtcome =>
      simp only [Trails, hstage] at h
      obtain ⟨_, rfl, -⟩ | ⟨-, -, hbelow⟩ := h
      · exact rfl
      · exact absurd houtcome (hbelow _ hflight).2
  | refuse hstage =>
      simp only [Trails, hstage] at h
      obtain ⟨_, rfl, -⟩ | ⟨rfl | ⟨_, rfl⟩, hless, -⟩ := h
      · exact rfl
      · exact ⟨rfl, Or.inr hless⟩
      · exact rfl
  | compare hstage =>
      simp only [Trails, hstage] at h
      exact ⟨rfl, Or.inl h.1⟩
  | fallBehind hstage =>
      simp only [Trails, hstage] at h
      exact ⟨rfl, h.1⟩
  | adopt hstage | stayBehind hstage =>
      simp only [Trails, hstage] at h
      exact ⟨h.1, Or.inl h.2⟩
  | close hstage =>
      simp only [Trails, hstage] at h
      exact h.1
  | stray hillegal => exact absurd hlegal hillegal

/-- A commit that takes effect although it is below the bound would be the first. -/
theorem Trails.land (h : run.Trails bound) (hlands : run.Lands host run' host')
    (hclosed : ∀ flight, run.handle.flight = some flight →
      (ExecutionStore.commit host.store flight.commit).1 = .ok () →
        bound ≤ flight.commit.expected) : run'.Trails bound := by
  obtain ⟨hflight, houtcome, -⟩ := hlands
  rename_i flight
  obtain ⟨cause, hstage, hcause, hfailed⟩ | ⟨purpose, hstage, hpurpose, hless, hexpected, -⟩ |
    ⟨cause, hstage, hcause, hexpected⟩ := h.flying hflight
  · simp only [Trails, hstage]
    refine Or.inl ⟨cause, rfl, hcause, ?_⟩
    intro other hother
    cases hother
    exact hfailed
  · simp only [Trails, hstage]
    refine Or.inr ⟨hpurpose, hless, ?_⟩
    intro other hother
    cases hother
    refine ⟨hexpected, ?_⟩
    intro haccepted
    have hreached := hclosed flight hflight (Option.some.inj haccepted)
    omega
  · simp only [Trails, hstage]
    refine ⟨hcause, ?_⟩
    intro other hother
    cases hother
    exact hexpected

/-- Beyond the bound only the record of an interruption is written. -/
theorem Trails.interrupted (h : run.Trails bound) {flight : Flight}
    (hflight : run.handle.flight = some flight) (hreached : bound ≤ flight.commit.expected) :
    ∃ cause, run.stage = .committing (.abort cause) ∧ cause.isInterruption = true ∧
      flight.commit.header.status = .failed := by
  obtain hinterrupted | ⟨_, -, -, -, hexpected, -⟩ | ⟨_, -, -, hexpected⟩ := h.flying hflight
  · exact hinterrupted
  · omega
  · omega

/-- A commit that the store accepts replaces the record by its next version. -/
theorem Sound.writes [LawfulStore σ] (h : run.Sound id) (hlands : run.Lands host run' host') :
    ∃ flight, run.handle.flight = some flight ∧
      (LawfulStore.stored host'.store = LawfulStore.stored host.store ∧
          (ExecutionStore.commit host.store flight.commit).1 ≠ .ok () ∨
        ∃ before, LawfulStore.stored host.store id = some before ∧
          flight.commit.expected = before.header.version ∧
          flight.commit.header.version = before.header.version + 1 ∧
          LawfulStore.stored host'.store id = some (before.extend flight.commit)) := by
  obtain ⟨hflight, -, hstore⟩ := hlands
  rename_i flight
  obtain ⟨hid, hversion⟩ := h.commits flight hflight
  refine ⟨flight, hflight, ?_⟩
  rw [hstore]
  cases hresult : (ExecutionStore.commit host.store flight.commit).1 with
  | error cause => exact Or.inl ⟨LawfulStore.commit_error hresult, by simp⟩
  | ok _ =>
      obtain ⟨before, hstored, hexpected, hafter⟩ := LawfulStore.commit_ok hresult
      rw [hid] at hstored hafter
      refine Or.inr ⟨before, hstored, hexpected.symm, by rw [hversion, hexpected], ?_⟩
      rw [hafter, Function.update_self]
      rfl

end

end Run

namespace Call

/-- A call that resumes an execution, from where it has read the header. -/
def Resumes (id : ExecutionId) : Call → Prop
  | .loadingLog request header => request.id = id ∧ header.id = id
  | .driving _ run => run.Sound id
  | .ended _ => True
  | _ => False

/-- A call that has not written since it read a version below the bound. -/
def Trails (bound : Nat) : Call → Prop
  | .loadingLog _ header => header.version < bound
  | .driving _ run => run.Trails bound
  | .ended _ => True
  | _ => False

section

variable {σ : Type} [ExecutionStore σ] [LawfulStore σ] {id : ExecutionId} {bound : Nat}
  {call call' : Call} {engine engine' : Engine} {host host' : Host σ}

theorem Resumes.next (h : call.Resumes id)
    (hnext : call.next? engine host = some (call', engine', host')) : call'.Resumes id := by
  cases call with
  | starting | created | resuming | loading => cases h
  | ended => cases hnext
  | loadingLog request header =>
      obtain ⟨-, ⟨outcome, rfl⟩ | ⟨log, workflow, state, cancelled, hprepare, rfl⟩⟩ :=
        loadingLog_cases hnext
      · exact trivial
      · obtain ⟨hresume, -, -, hstate⟩ := prepareResume_cases hprepare
        have hcopy : state.header.id = header.id ∧ state.header.status = header.status := by
          rw [hstate]
          cases request.input <;> exact ⟨rfl, rfl⟩
        refine ⟨hcopy.1.trans h.2, ?_, ?_⟩
        · intro flight hflight
          cases hflight
        · change state.header.status.canBecome .running = true
          rw [hcopy.2]
          exact ExecutionState.canBecome_of_canResume hresume
  | driving scope run =>
      rcases driving_cases hnext with ⟨-, _, rfl⟩ | ⟨run', cancelled, rfl, hmoves⟩
      · exact trivial
      · have hattend : Run.Sound id { run with cancelled } := ⟨h.own, h.commits, h.stands⟩
        rcases hmoves with hlands | ⟨-, hact⟩
        · exact hattend.land hlands
        · exact hattend.act hact

/-- A call changes the record of its execution by a commit that the store accepts. -/
theorem Resumes.writes (h : call.Resumes id)
    (hnext : call.next? engine host = some (call', engine', host'))
    (hwrite : LawfulStore.stored host'.store id ≠ LawfulStore.stored host.store id) :
    ∃ scope run flight before, call = .driving scope run ∧ run.handle.flight = some flight ∧
      LawfulStore.stored host.store id = some before ∧
      flight.commit.expected = before.header.version ∧
      flight.commit.header.version = before.header.version + 1 ∧
      LawfulStore.stored host'.store id = some (before.extend flight.commit) := by
  rcases next?_store hnext with hstore | ⟨_, _, rfl, -⟩ | ⟨scope, run, run', cancelled, rfl, -, hlands⟩
  · rw [hstore] at hwrite
    exact absurd rfl hwrite
  · cases h
  · have hattend : Run.Sound id { run with cancelled } := ⟨h.own, h.commits, h.stands⟩
    obtain ⟨flight, hflight, ⟨hsame, -⟩ | ⟨before, hstored, hexpected, hversion, hafter⟩⟩ :=
      hattend.writes hlands
    · rw [hsame] at hwrite
      exact absurd rfl hwrite
    · exact ⟨scope, run, flight, before, rfl, hflight, hstored, hexpected, hversion, hafter⟩

theorem Trails.next (h : call.Trails bound) (hresumes : call.Resumes id)
    (hnext : call.next? engine host = some (call', engine', host'))
    (hclosed : LawfulStore.stored host'.store id ≠ LawfulStore.stored host.store id →
      ∀ before, LawfulStore.stored host.store id = some before →
        bound ≤ before.header.version) : call'.Trails bound := by
  cases call with
  | starting | created | resuming | loading => cases h
  | ended => cases hnext
  | loadingLog request header =>
      obtain ⟨-, ⟨outcome, rfl⟩ | ⟨log, workflow, state, cancelled, hprepare, rfl⟩⟩ :=
        loadingLog_cases hnext
      · exact trivial
      · obtain ⟨-, -, -, hstate⟩ := prepareResume_cases hprepare
        have hversion : state.header.version = header.version := by
          rw [hstate]
          cases request.input <;> rfl
        refine ⟨rfl, ?_⟩
        change state.header.version < bound
        rw [hversion]
        exact h
  | driving scope run =>
      rcases driving_cases hnext with ⟨-, _, rfl⟩ | ⟨run', cancelled, rfl, hmoves⟩
      · exact trivial
      · have hattend : Run.Sound id { run with cancelled } :=
          ⟨hresumes.own, hresumes.commits, hresumes.stands⟩
        have htrails : Run.Trails bound { run with cancelled } := h
        rcases hmoves with hlands | ⟨-, hact⟩
        · apply htrails.land hlands
          intro flight hflight haccepted
          obtain ⟨other, hother, ⟨-, hrefused⟩ | ⟨before, hstored, hexpected, hversion, hafter⟩⟩ :=
            hattend.writes hlands
          · cases hflight.symm.trans hother
            exact absurd haccepted hrefused
          · cases hflight.symm.trans hother
            rw [hexpected]
            refine hclosed ?_ before hstored
            rw [hstored, hafter]
            intro hsame
            have hheader : flight.commit.header = before.header :=
              congrArg (·.header) (Option.some.inj hsame)
            rw [hheader] at hversion
            omega
        · exact htrails.act hattend.legal hact

end

end Call

/-- An engine in a process of its own, with the call it is in. -/
structure Player where
  engine : Engine
  call : Call
  host : Host Unit

structure Duel (σ : Type) where
  store : σ
  players : Bool → Player

namespace Duel

/-- What one of the two does, or what happens to it. -/
inductive Move where
  | advance
  | wait (time : Nat)
  | cancel (id : ExecutionId)

variable {σ : Type} [ExecutionStore σ]

def move? (duel : Duel σ) (side : Bool) (move : Move) : Option (Duel σ) :=
  let player := duel.players side
  match move with
  | .advance =>
    (player.call.next? player.engine (player.host.on duel.store)).map fun (call, engine, host) =>
      ⟨host.store, Function.update duel.players side ⟨engine, call, host.on ()⟩⟩
  | .wait time =>
    some { duel with
      players := Function.update duel.players side { player with host := player.host.waitUntil time } }
  | .cancel id =>
    some { duel with
      players := Function.update duel.players side { player with engine := player.engine.cancel id } }

/-- One of the two moves. -/
def Step (side : Bool) (duel later : Duel σ) : Prop := ∃ move, duel.move? side move = some later

/-- Both move, in any order. -/
def Goes : Duel σ → Duel σ → Prop := Relation.ReflTransGen fun duel later => ∃ side, Step side duel later

/-- Make a move, if it can be made. -/
def make (duel : Duel σ) (side : Bool) (move : Move) : Duel σ := (duel.move? side move).getD duel

def makeAll (duel : Duel σ) (moves : List (Bool × Move)) : Duel σ :=
  moves.foldl (fun duel (side, move) => duel.make side move) duel

theorem step_make (duel : Duel σ) (side : Bool) (move : Move) :
    duel.make side move = duel ∨ Step side duel (duel.make side move) := by
  unfold make
  cases hmove : duel.move? side move with
  | none => exact Or.inl rfl
  | some later => exact Or.inr ⟨move, hmove⟩

theorem Goes.makeAll (moves : List (Bool × Move)) (duel : Duel σ) :
    Goes duel (duel.makeAll moves) := by
  induction moves generalizing duel with
  | nil => exact .refl
  | cons first rest ih =>
      have hrest := ih (duel.make first.1 first.2)
      rcases step_make duel first.1 first.2 with hsame | hstep
      · rw [hsame] at hrest
        change Goes duel ((duel.make first.1 first.2).makeAll rest)
        rw [hsame]
        exact hrest
      · exact .head ⟨_, hstep⟩ hrest

variable [LawfulStore σ]

/-- What readers of the store see. -/
def stored (duel : Duel σ) (id : ExecutionId) : Option StoredExecution :=
  LawfulStore.stored duel.store id

def version? (duel : Duel σ) (id : ExecutionId) : Option Nat :=
  (duel.stored id).map (·.header.version)

/-- Both move, and none of them writes. -/
def Waits (id : ExecutionId) : Duel σ → Duel σ → Prop :=
  Relation.ReflTransGen fun duel later =>
    (∃ side, Step side duel later) ∧ later.version? id = duel.version? id

theorem Waits.makeAll {id : ExecutionId} (moves : List (Bool × Move)) {duel : Duel σ}
    (h : ∀ count < moves.length + 1,
      (duel.makeAll (moves.take count)).version? id = duel.version? id) :
    Waits id duel (duel.makeAll moves) := by
  induction moves generalizing duel with
  | nil => exact .refl
  | cons first rest ih =>
      have hfirst : (duel.make first.1 first.2).version? id = duel.version? id :=
        h 1 (by simp)
      have hrest : Waits id (duel.make first.1 first.2)
          ((duel.make first.1 first.2).makeAll rest) := by
        apply ih
        intro count hcount
        rw [hfirst]
        exact h (count + 1) (by simpa using hcount)
      rcases step_make duel first.1 first.2 with hsame | hstep
      · change Waits id duel ((duel.make first.1 first.2).makeAll rest)
        rw [hsame] at hrest ⊢
        exact hrest
      · exact .head ⟨⟨_, hstep⟩, hfirst⟩ hrest

/-- A move that changes the version is a write. -/
theorem step_of_version {duel : Duel σ} {side : Bool} {move : Move} {id : ExecutionId}
    (h : (duel.make side move).version? id ≠ duel.version? id) :
    Step side duel (duel.make side move) ∧ (duel.make side move).stored id ≠ duel.stored id := by
  have hwrite : (duel.make side move).stored id ≠ duel.stored id := by
    intro hsame
    unfold version? at h
    rw [hsame] at h
    exact h rfl
  refine ⟨?_, hwrite⟩
  rcases step_make duel side move with hsame | hstep
  · rw [hsame] at hwrite
    exact absurd rfl hwrite
  · exact hstep

/-- Both have read the header of the stored execution to resume it. -/
def Begins (duel : Duel σ) (id : ExecutionId) : Prop :=
  ∃ execution, duel.stored id = some execution ∧
    ∀ side, ∃ request : ResumeRequest, request.id = id ∧
      (duel.players side).call = .loadingLog request execution.header

variable {duel later : Duel σ} {side : Bool} {id : ExecutionId} {bound : Nat}

omit [LawfulStore σ] in
/-- A move of one side leaves the other one alone; it may be a step of its call. -/
private theorem Step.cases (h : Step side duel later) :
    later.players (!side) = duel.players (!side) ∧
      (later.store = duel.store ∧ (later.players side).call = (duel.players side).call ∨
        ∃ engine host, host.store = later.store ∧
          (duel.players side).call.next? (duel.players side).engine
            ((duel.players side).host.on duel.store) =
              some ((later.players side).call, engine, host)) := by
  have hother : ∀ player, Function.update duel.players side player (!side) =
      duel.players (!side) := by
    intro player
    exact Function.update_of_ne (by cases side <;> simp) _ _
  obtain ⟨move, hmove⟩ := h
  cases move with
  | wait time | cancel other =>
      simp only [move?, Option.some.injEq] at hmove
      rw [← hmove]
      refine ⟨hother _, Or.inl ⟨rfl, ?_⟩⟩
      simp only [Function.update_self]
  | advance =>
      simp only [move?, Option.map_eq_some_iff] at hmove
      obtain ⟨⟨call, engine, host⟩, hnext, rfl⟩ := hmove
      refine ⟨hother _, Or.inr ⟨engine, host, rfl, ?_⟩⟩
      simp only [hnext, Function.update_self]

/-- Both calls resume the execution. -/
def Fair (duel : Duel σ) (id : ExecutionId) : Prop := ∀ side, (duel.players side).call.Resumes id

private theorem Fair.step (h : duel.Fair id) (hstep : Step side duel later) : later.Fair id := by
  obtain ⟨hother, hself⟩ := hstep.cases
  have hmoved : (later.players side).call.Resumes id := by
    rcases hself with ⟨-, hcall⟩ | ⟨engine, host, -, hnext⟩
    · rw [hcall]
      exact h side
    · exact (h side).next hnext
  have hstayed : (later.players (!side)).call.Resumes id := by
    rw [hother]
    exact h (!side)
  intro either
  cases side <;> cases either <;> assumption

/-- A write is a commit of the side that moves, and raises the version by one. -/
private theorem Fair.writes (h : duel.Fair id) (hstep : Step side duel later)
    (hwrite : later.stored id ≠ duel.stored id) :
    ∃ scope run flight before, (duel.players side).call = .driving scope run ∧
      run.handle.flight = some flight ∧ duel.stored id = some before ∧
      flight.commit.expected = before.header.version ∧
      flight.commit.header.version = before.header.version + 1 ∧
      later.stored id = some (before.extend flight.commit) := by
  obtain ⟨-, ⟨hstore, -⟩ | ⟨engine, host, hstore, hnext⟩⟩ := hstep.cases
  · unfold stored at hwrite
    rw [hstore] at hwrite
    exact absurd rfl hwrite
  · unfold stored at hwrite ⊢
    rw [← hstore] at hwrite ⊢
    exact (h side).writes hnext hwrite

/-- A write raises the version by one. -/
private theorem Fair.raises (h : duel.Fair id) (hstep : Step side duel later)
    (hwrite : later.stored id ≠ duel.stored id) {version : Nat}
    (hversion : duel.version? id = some version) : later.version? id = some (version + 1) := by
  obtain ⟨_, _, flight, before, -, -, hbefore, -, hraised, hafter⟩ := h.writes hstep hwrite
  unfold version? at hversion ⊢
  rw [hbefore] at hversion
  cases hversion
  rw [hafter]
  exact congrArg some hraised

private theorem Fair.trails {loser : Bool} (h : duel.Fair id) (hstep : Step side duel later)
    (htrails : (duel.players loser).call.Trails bound)
    (hclosed : later.stored id ≠ duel.stored id → side = loser →
      ∀ version, duel.version? id = some version → bound ≤ version) :
    (later.players loser).call.Trails bound := by
  obtain ⟨hother, hself⟩ := hstep.cases
  by_cases hside : side = loser
  · subst hside
    rcases hself with ⟨-, hcall⟩ | ⟨engine, host, hstore, hnext⟩
    · rw [hcall]
      exact htrails
    · apply htrails.next (h side) hnext
      intro hwrite before hbefore
      rw [hstore] at hwrite
      exact hclosed hwrite rfl _ (congrArg (Option.map _) hbefore)
  · obtain rfl : loser = !side := by cases side <;> cases loser <;> simp_all
    rw [hother]
    exact htrails

/-- Who has read the header trails the next version. -/
private theorem Begins.trails (h : duel.Begins id) :
    duel.Fair id ∧ ∃ version, duel.version? id = some version ∧
      ∀ side, (duel.players side).call.Trails (version + 1) := by
  obtain ⟨execution, hstored, hbegins⟩ := h
  refine ⟨?_, execution.header.version, congrArg (Option.map _) hstored, ?_⟩
  · intro side
    obtain ⟨request, hid, hcall⟩ := hbegins side
    rw [hcall]
    exact ⟨hid, LawfulStore.stored_id hstored⟩
  · intro side
    obtain ⟨request, -, hcall⟩ := hbegins side
    rw [hcall]
    exact Nat.lt_succ_self _

/-- Until somebody writes, both trail the next version. -/
private theorem Waits.trails {first : Duel σ} {version : Nat} (h : Waits id first duel)
    (hfair : first.Fair id) (hversion : first.version? id = some version)
    (htrails : ∀ side, (first.players side).call.Trails (version + 1)) :
    duel.Fair id ∧ duel.version? id = some version ∧
      ∀ side, (duel.players side).call.Trails (version + 1) := by
  induction h with
  | refl => exact ⟨hfair, hversion, htrails⟩
  | tail _ hstep ih =>
      obtain ⟨hfair, hversion, htrails⟩ := ih
      obtain ⟨⟨side, hstep⟩, hsame⟩ := hstep
      refine ⟨hfair.step hstep, hsame.trans hversion, ?_⟩
      intro either
      apply hfair.trails hstep (htrails either)
      intro hwrite
      have hraised := hfair.raises hstep hwrite hversion
      rw [hsame, hversion] at hraised
      cases hraised

/-- Once the bound is reached, the side that trails it keeps trailing. -/
private theorem Goes.trails {first : Duel σ} {loser : Bool} (h : Goes first duel)
    (hfair : first.Fair id) (htrails : (first.players loser).call.Trails bound)
    (hreached : ∃ version, first.version? id = some version ∧ bound ≤ version) :
    duel.Fair id ∧ (duel.players loser).call.Trails bound ∧
      ∃ version, duel.version? id = some version ∧ bound ≤ version := by
  induction h with
  | refl => exact ⟨hfair, htrails, hreached⟩
  | @tail duel later _ hstep ih =>
      obtain ⟨hfair, htrails, version, hversion, hbound⟩ := ih
      obtain ⟨side, hstep⟩ := hstep
      refine ⟨hfair.step hstep, ?_, ?_⟩
      · apply hfair.trails hstep htrails
        intro _ _ other hother
        cases hversion.symm.trans hother
        exact hbound
      · by_cases hwrite : later.stored id = duel.stored id
        · exact ⟨version, (congrArg (Option.map _) hwrite).trans hversion, hbound⟩
        · exact ⟨version + 1, hfair.raises hstep hwrite hversion, by omega⟩

/-- Whatever the side that did not write first writes is that it was interrupted. -/
theorem loser_writes {first begun won last : Duel σ} {winner : Bool} (h : first.Begins id)
    (hwaits : Waits id first begun) (hwins : Step winner begun won)
    (hwon : won.stored id ≠ begun.stored id) (hgoes : Goes won last)
    (hloses : Step (!winner) last later) (hlost : later.stored id ≠ last.stored id) :
    ∃ scope run cause, (last.players (!winner)).call = .driving scope run ∧
      run.stage = .committing (.abort cause) ∧ cause.isInterruption = true ∧
      ∃ execution, later.stored id = some execution ∧ execution.header.status = .failed := by
  obtain ⟨hfirst, version, hread, hbegins⟩ := h.trails
  obtain ⟨hbegun, hversion, htrails⟩ := hwaits.trails hfirst hread hbegins
  -- The first write reaches the bound below which the other side still is.
  have hraised : won.version? id = some (version + 1) := hbegun.raises hwins hwon hversion
  have hloser : (won.players (!winner)).call.Trails (version + 1) := by
    rw [hwins.cases.1]
    exact htrails (!winner)
  obtain ⟨hlast, hloser, reached, hreached, hbound⟩ :=
    hgoes.trails (hbegun.step hwins) hloser ⟨version + 1, hraised, Nat.le_refl _⟩
  obtain ⟨scope, run, flight, before, hcall, hflight, hbefore, hexpected, -, hafter⟩ :=
    hlast.writes hloses hlost
  have hcurrent : last.version? id = some before.header.version :=
    congrArg (Option.map _) hbefore
  obtain rfl : reached = before.header.version :=
    Option.some.inj (hreached.symm.trans hcurrent)
  rw [hcall] at hloser
  obtain ⟨cause, hstage, hcause, hfailed⟩ :=
    Run.Trails.interrupted hloser hflight (by omega)
  exact ⟨scope, run, cause, hcall, hstage, hcause, _, hafter, hfailed⟩

end Duel

namespace Sample

/-- An execution that waits at its gate. -/
def paused : Session (FaultyStore MemoryStore) := ((session {}).ask (start gated)).play 60

/-- Two engines that have read its header. -/
def duel : Duel (FaultyStore MemoryStore) where
  store := paused.host.store
  players _ :=
    { engine := { registry, active := [⟨firstId, false⟩] }
      call := .loadingLog { id := firstId, workflow := some gated }
        (((paused.stored firstId).map (·.header)).getD default)
      host := { store := (), bus := default } }

/-- One side reads the log; the other one does so too and asks for its first save. -/
def begun : Duel (FaultyStore MemoryStore) :=
  duel.makeAll [(false, .advance), (true, .advance), (true, .advance)]

/-- The save takes effect. -/
def won : Duel (FaultyStore MemoryStore) := begun.make true .advance

/-- The other side is cancelled, and is about to record that. -/
def cancelled : Duel (FaultyStore MemoryStore) :=
  won.makeAll [(false, .cancel firstId), (false, .advance), (false, .advance), (false, .advance),
    (false, .advance)]

def lost : Duel (FaultyStore MemoryStore) := cancelled.make false .advance

theorem begins_duel : duel.Begins firstId := by
  have hstored : (duel.stored firstId).isSome = true := by decide
  obtain ⟨execution, hexecution⟩ := Option.isSome_iff_exists.mp hstored
  refine ⟨execution, hexecution, ?_⟩
  intro side
  refine ⟨{ id := firstId, workflow := some gated }, rfl, ?_⟩
  have hheader : paused.stored firstId = some execution := hexecution
  simp only [duel, hheader, Option.map_some, Option.getD_some]

theorem waits_begun : Duel.Waits firstId duel begun := .makeAll _ (by decide)

theorem wins_won : Duel.Step true begun won ∧ won.stored firstId ≠ begun.stored firstId :=
  Duel.step_of_version (by decide)

theorem loses_lost :
    Duel.Step false cancelled lost ∧ lost.stored firstId ≠ cancelled.stored firstId :=
  Duel.step_of_version (by decide)

end Sample

namespace Duel

/-- The loser was cancelled before its first save came back, and is recorded as such. -/
theorem loser_writes_of_cancellation :
    ∃ scope run cause, (Sample.cancelled.players false).call = .driving scope run ∧
      run.stage = .committing (.abort cause) ∧ cause.isInterruption = true := by
  obtain ⟨hwins, hwon⟩ := Sample.wins_won
  obtain ⟨hloses, hlost⟩ := Sample.loses_lost
  have hgoes : Goes Sample.won Sample.cancelled := .makeAll _ _
  obtain ⟨scope, run, cause, hcall, hstage, hcause, -⟩ :=
    loser_writes Sample.begins_duel Sample.waits_begun hwins hwon hgoes hloses hlost
  exact ⟨scope, run, cause, hcall, hstage, hcause⟩

/-- The winner's execution is running, until the loser records its own cancellation. -/
theorem winner_failed_by_loser :
    Sample.duel.Begins Sample.firstId ∧ Waits Sample.firstId Sample.duel Sample.begun ∧
    (Step true Sample.begun Sample.won ∧
      Sample.won.stored Sample.firstId ≠ Sample.begun.stored Sample.firstId) ∧
    Goes Sample.won Sample.cancelled ∧
    (Step false Sample.cancelled Sample.lost ∧
      Sample.lost.stored Sample.firstId ≠ Sample.cancelled.stored Sample.firstId) ∧
    (Sample.cancelled.stored Sample.firstId).map (fun execution =>
      (execution.header.status, execution.header.error)) = some (.running, none) ∧
    (Sample.lost.stored Sample.firstId).map (fun execution => execution.header.status) =
      some .failed := by
  refine ⟨Sample.begins_duel, Sample.waits_begun, Sample.wins_won, Goes.makeAll _ _,
    Sample.loses_lost, ?_, ?_⟩ <;>
  decide

end Duel

end WorkflowEngine
