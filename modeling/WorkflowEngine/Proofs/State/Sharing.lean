import WorkflowEngine.Proofs.Session.Passage
import WorkflowEngine.Proofs.State.Tracking

/-!
Any number of handles on the executions of one store. A user holds one handle at most and is in one
operation of it at most; a move lets one user begin an operation, go on with it, or be dropped out of
it, or lets a commit that somebody asked for take effect, which it does by itself. Users move in any
order, also between the two reads of a resumption or of a reconciliation.

What time it is and which identifiers were drawn elsewhere is left open. A user does not give its
handle away or take a second one.
-/
namespace WorkflowEngine

/-- What a user of a handle is doing. -/
inductive Activity where
  /-- No operation is under way. -/
  | idle
  /-- A commit was made, and waits until none is on its way. -/
  | queued (commit : Commit)
  /-- The commit on its way is waited for. -/
  | awaiting
  /-- A reconciliation waits until no commit is on its way. -/
  | settling
  /-- The stored header has been read, and is ahead of the working copy. -/
  | catchingUp (stored : ExecutionHeader)

/-- Somebody who has a handle, or is about to have one. -/
inductive User where
  | absent
  /-- A resumption that has read the header. -/
  | loading (id : ExecutionId) (header : ExecutionHeader)
  | holding (handle : Handle) (activity : Activity)

structure Sharing (ι σ : Type) where
  host : Host σ
  users : ι → User

namespace Sharing

variable {ι σ : Type} [DecidableEq ι] [ExecutionStore σ]

/-- What a user does, or what happens to it. -/
inductive Move where
  | create (request : StartRequest) (totalSteps : Nat)
  | resume (id : ExecutionId)
  | operate (operation : StateOperation)
  | reconcile
  /-- The operation under way goes on. -/
  | advance
  /-- The commit on its way takes effect, or is refused. -/
  | land
  /-- The operation under way is dropped; a commit on its way goes on. -/
  | drop

def put (sharing : Sharing ι σ) (name : ι) (user : User) : Sharing ι σ :=
  { sharing with users := Function.update sharing.users name user }

def on (sharing : Sharing ι σ) (host : Host σ) : Sharing ι σ := { sharing with host }

/-- Has the last commit of a handle taken effect or been refused? -/
def isFree (handle : Handle) : Bool := handle.flight.all (·.outcome.isSome)

/-- Begin an operation of an idle handle; a commit is made of the copy as the operation left it. -/
def operate (sharing : Sharing ι σ) (name : ι) (handle : Handle) (operation : StateOperation) :
    Sharing ι σ :=
  match operation.prepare handle sharing.host with
  | (.error _, host) => sharing.on host
  | (.ok (.nothing, handle), host) => (sharing.on host).put name (.holding handle .idle)
  | (.ok (.commit checkpoint, handle), host) =>
    let (now, host) := host.stamp
    (sharing.on host).put name (.holding handle (.queued (handle.state.commit checkpoint now)))

/-- Go on with an operation. -/
def advance? (sharing : Sharing ι σ) (name : ι) : User → Option (Sharing ι σ)
  | .loading id header =>
    some (sharing.put name
      (match ExecutionStore.loadCheckpoints sharing.host.store id 0 with
      | .ok log => .holding { state := .ofRecord (ExecutionStore.assemble header log) } .idle
      | .error _ => .absent))
  | .holding handle (.queued commit) =>
    if isFree handle then
      some (sharing.put name (.holding
        (handle.send commit sharing.host.now (ExecutionStore.latency sharing.host.store)) .awaiting))
    else none
  | .holding handle .awaiting => do
    let flight ← handle.flight
    let outcome ← flight.outcome
    some (sharing.put name (.holding (handle.settle flight.commit outcome).2 .idle))
  | .holding handle .settling =>
    if isFree handle then
      some (sharing.put name (.holding handle.clear
        (match handle.clear.ahead? sharing.host with
        | .ok (some stored) => .catchingUp stored
        | _ => .idle)))
    else none
  | .holding handle (.catchingUp stored) =>
    some (sharing.put name (.holding
      (match handle.takeOver stored sharing.host with
      | .ok handle => handle
      | .error _ => handle) .idle))
  | _ => none

def move? (sharing : Sharing ι σ) (name : ι) (move : Move) : Option (Sharing ι σ) :=
  match sharing.users name, move with
  | .absent, .create request totalSteps =>
    match Handle.create request.workflow.id request.userId request.context totalSteps
        sharing.host with
    | (.ok handle, host) => some ((sharing.on host).put name (.holding handle .idle))
    | (.error _, host) => some (sharing.on host)
  | .absent, .resume id =>
    match ExecutionStore.loadHeader sharing.host.store id with
    | .ok (some header) => some (sharing.put name (.loading id header))
    | _ => none
  | .holding handle .idle, .operate operation => some (sharing.operate name handle operation)
  | .holding handle .idle, .reconcile => some (sharing.put name (.holding handle .settling))
  | user, .advance => sharing.advance? name user
  | .holding handle activity, .land =>
    if isFree handle then none
    else
      let (handle, store) := handle.land sharing.host.store
      some ((sharing.on { sharing.host with store }).put name (.holding handle activity))
  | .loading _ _, .drop => some (sharing.put name .absent)
  | .holding handle _, .drop => some (sharing.put name (.holding handle .idle))
  | _, _ => none

/-- One user moves, or time passes and identifiers are drawn elsewhere. -/
inductive Step (sharing : Sharing ι σ) : Sharing ι σ → Prop
  | move {later : Sharing ι σ} (name : ι) (move : Move)
      (hmove : sharing.move? name move = some later) : Step sharing later
  | elsewhere (host : Host σ) (hstore : host.store = sharing.host.store) :
      Step sharing (sharing.on host)

def Goes : Sharing ι σ → Sharing ι σ → Prop := Relation.ReflTransGen Step

/-- Make moves one after the other, passing over those that cannot be made. -/
def makeAll (sharing : Sharing ι σ) (moves : List (ι × Move)) : Sharing ι σ :=
  moves.foldl (fun sharing (name, move) => (sharing.move? name move).getD sharing) sharing

omit [ExecutionStore σ] in
@[simp] theorem users_put (sharing : Sharing ι σ) (name : ι) (user : User) :
    (sharing.put name user).users name = user := Function.update_self ..

omit [ExecutionStore σ] in
@[simp] theorem put_put (sharing : Sharing ι σ) (name : ι) (user user' : User) :
    (sharing.put name user).put name user' = sharing.put name user' := by
  simp [put, Function.update_idem]

omit [ExecutionStore σ] in
/-- Users and host are apart. -/
theorem put_on (sharing : Sharing ι σ) (name : ι) (user : User) (host later : Host σ) :
    ((sharing.on host).put name user).on later = (sharing.on later).put name user := rfl

omit [ExecutionStore σ] in
theorem put_self {sharing : Sharing ι σ} {name : ι} {user : User}
    (h : sharing.users name = user) (host : Host σ) :
    (sharing.on host).put name user = sharing.on host := by
  unfold put on
  rw [← h, Function.update_eq_self]

theorem goes_makeAll (sharing : Sharing ι σ) (moves : List (ι × Move)) :
    sharing.Goes (sharing.makeAll moves) := by
  induction moves generalizing sharing with
  | nil => exact .refl
  | cons first rest ih =>
      refine .trans ?_ (ih ((sharing.move? first.1 first.2).getD sharing))
      cases hmove : sharing.move? first.1 first.2 with
      | none => exact .refl
      | some later => exact .single (.move first.1 first.2 hmove)

/-- A resumption without a break is two moves. -/
theorem goes_resume {sharing : Sharing ι σ} {name : ι} {id : ExecutionId} {handle : Handle}
    (huser : sharing.users name = .absent) (h : Handle.resume id sharing.host = .ok handle) :
    sharing.Goes (sharing.put name (.holding handle .idle)) := by
  unfold Handle.resume ExecutionStore.load at h
  cases hheader : ExecutionStore.loadHeader sharing.host.store id with
  | error cause => simp [hheader, bind, Except.bind] at h
  | ok found =>
      cases found with
      | none => simp [hheader, bind, Except.bind, pure, Except.pure] at h
      | some header =>
          cases hlog : ExecutionStore.loadCheckpoints sharing.host.store id 0 with
          | error cause => simp [hheader, hlog, bind, Except.bind] at h
          | ok log =>
              simp only [hheader, hlog, bind, Except.bind, pure, Except.pure, Except.ok.injEq] at h
              subst h
              have hfirst : sharing.Step (sharing.put name (.loading id header)) :=
                .move name (.resume id) (by simp [move?, huser, hheader])
              refine .head hfirst (.single (.move name .advance ?_))
              have hload : ExecutionStore.loadCheckpoints
                  (sharing.put name (.loading id header)).host.store id 0 = .ok log := hlog
              simp only [move?, users_put, advance?, hload, put_put]

/-- Who waits for a commit lets time pass until it has taken effect and its outcome is known. -/
private theorem goes_await {sharing : Sharing ι σ} {name : ι} {handle handle' : Handle}
    {activity : Activity} {host : Host σ} (huser : sharing.users name = .holding handle activity)
    (hawait : handle.await sharing.host = (handle', host)) :
    isFree handle' = true ∧
      sharing.Goes ((sharing.on host).put name (.holding handle' activity)) := by
  unfold Handle.await at hawait
  cases hflight : handle.flight with
  | none =>
      simp only [hflight, Prod.mk.injEq] at hawait
      obtain ⟨rfl, rfl⟩ := hawait
      refine ⟨by simp [isFree, hflight], ?_⟩
      rw [put_self huser]
      exact .single (.elsewhere _ rfl)
  | some flight =>
      cases houtcome : flight.outcome with
      | some outcome =>
          simp only [hflight, Handle.land, houtcome, Prod.mk.injEq] at hawait
          obtain ⟨rfl, rfl⟩ := hawait
          refine ⟨by simp [isFree, hflight, houtcome], .single ?_⟩
          rw [put_self huser]
          refine .elsewhere _ ?_
          rw [Host.waitUntil_store, Host.waitUntil_store]
      | none =>
          have hland : ∀ landing : Host σ, landing.store = sharing.host.store →
              sharing.Goes ((sharing.on { landing with
                store := (ExecutionStore.commit landing.store flight.commit).2 }).put name
                (.holding { handle with flight := some { flight with
                  outcome := some (ExecutionStore.commit landing.store flight.commit).1 } }
                  activity)) := by
            intro landing hlanding
            have huser : (sharing.on landing).users name = .holding handle activity := huser
            refine .head (.elsewhere landing hlanding) (.single (.move name .land ?_))
            simp only [move?, huser, isFree, hflight, houtcome, Option.all_some,
              Option.isSome_none, Bool.false_eq_true, if_false, Handle.land]
            rfl
          simp only [hflight, Handle.land, houtcome, Prod.mk.injEq] at hawait
          obtain ⟨rfl, rfl⟩ := hawait
          have hlanded := hland (sharing.host.waitUntil flight.landsAt) (Host.waitUntil_store ..)
          refine ⟨rfl, .tail hlanded ?_⟩
          rw [← put_on]
          exact .elsewhere _ (Host.waitUntil_store ..)

/-- A commit without a break goes on its way, takes effect when its time has come, and is answered. -/
private theorem goes_commit {sharing : Sharing ι σ} {name : ι} {state : ExecutionState}
    {commit : Commit} {handle : Handle} {host : Host σ}
    (huser : sharing.users name = .holding { state } (.queued commit))
    (hawait : (Handle.send { state } commit sharing.host.now
      (ExecutionStore.latency sharing.host.store)).await sharing.host = (handle, host)) :
    ∃ outcome, handle.answered? host.now = some (commit, outcome) ∧
      sharing.Goes ((sharing.on host).put name (.holding (handle.settle commit outcome).2 .idle)) := by
  obtain ⟨flight, hsent, rfl, houtcome⟩ : ∃ flight : Flight, Handle.send { state } commit
      sharing.host.now (ExecutionStore.latency sharing.host.store) = ⟨state, some flight⟩ ∧
      flight.commit = commit ∧ flight.outcome = none := ⟨_, rfl, rfl, rfl⟩
  have hsend : sharing.Step (sharing.put name (.holding ⟨state, some flight⟩ .awaiting)) := by
    refine .move name .advance ?_
    simp only [move?, huser, advance?, isFree, Option.all_none, if_true, hsent]
  let sent := sharing.put name (.holding ⟨state, some flight⟩ .awaiting)
  rw [hsent] at hawait
  have hsent' : sent.users name = .holding ⟨state, some flight⟩ .awaiting := users_put ..
  obtain ⟨-, hgoes⟩ := goes_await hsent' hawait
  obtain ⟨outcome, hhandle, htime⟩ : ∃ outcome,
      handle = ⟨state, some { flight with outcome := some outcome }⟩ ∧
        flight.answersAt ≤ host.now := by
    simp only [Handle.await, Handle.land, houtcome, Prod.mk.injEq] at hawait
    obtain ⟨rfl, rfl⟩ := hawait
    exact ⟨_, rfl, Nat.le_max_right _ _⟩
  subst hhandle
  have hanswer : ((sent.on host).put name
      (.holding ⟨state, some { flight with outcome := some outcome }⟩ .awaiting)).Step
      ((sharing.on host).put name (.holding
        (Handle.settle ⟨state, some { flight with outcome := some outcome }⟩
          flight.commit outcome).2 .idle)) := by
    refine .move name .advance ?_
    simp only [move?, users_put, advance?, Option.bind_eq_bind, Option.bind_some, put_put]
    exact congrArg some (put_put (sharing.on host) name _ _)
  refine ⟨outcome, ?_, .head hsend (.tail hgoes hanswer)⟩
  simp [Handle.answered?, htime]

/-- An operation without a break is the move that begins it and, for a commit, those that end it. -/
theorem goes_perform {sharing : Sharing ι σ} {name : ι} {state : ExecutionState}
    (huser : sharing.users name = .holding { state } .idle) (operation : StateOperation) :
    let (_, handle, host) := Handle.perform { state } operation sharing.host
    sharing.Goes ((sharing.on host).put name (.holding handle .idle)) := by
  have hbegin : sharing.Step (sharing.operate name { state } operation) :=
    .move name (.operate operation) (by simp [move?, huser])
  unfold Handle.perform Handle.beginOperation
  unfold operate at hbegin
  cases hprepare : operation.prepare { state } sharing.host with
  | mk result host =>
      obtain ⟨-, hcases⟩ := operation.prepare_cases { state } sharing.host
      simp only [hprepare] at hbegin hcases ⊢
      obtain ⟨cause, rfl⟩ | ⟨demand, state', rfl, -⟩ := hcases
      · have hsame : (sharing.on host).put name (.holding { state } .idle) = sharing.on host :=
          put_self huser host
        simp only [hsame]
        exact .single hbegin
      · cases demand with
        | nothing => exact .single hbegin
        | commit checkpoint =>
            let made := state'.commit checkpoint host.stamp.1
            let queued := (sharing.on host.stamp.2).put name (.holding { state := state' } (.queued made))
            have hoperated : sharing.Step queued := hbegin
            have hidle : ∀ (later : Host σ) (user : User),
                (queued.on later).put name user = (sharing.on later).put name user :=
              fun later user => put_put (sharing.on later) name _ user
            cases hawait : Handle.await (Handle.send { state := state' } made host.stamp.2.now
                (ExecutionStore.latency host.stamp.2.store)) host.stamp.2 with
            | mk handle host' =>
                have hqueued : queued.users name = .holding { state := state' } (.queued made) :=
                  users_put ..
                obtain ⟨outcome, hanswered, hgoes⟩ := goes_commit hqueued hawait
                rw [hidle] at hgoes
                simp only [Handle.persist, made, hawait, hanswered]
                exact .head hoperated hgoes

/-- So is a reconciliation, which first waits for a commit that was left on its way. -/
theorem goes_reconcile {sharing : Sharing ι σ} {name : ι} {handle : Handle}
    (huser : sharing.users name = .holding handle .idle) :
    let (_, handle, host) := handle.reconcile sharing.host
    sharing.Goes ((sharing.on host).put name (.holding handle .idle)) := by
  let settling := sharing.put name (.holding handle .settling)
  have hbegin : sharing.Step settling := .move name .reconcile (by simp [move?, huser, settling])
  have hsettling : settling.users name = .holding handle .settling := users_put ..
  unfold Handle.reconcile
  cases hawait : handle.await sharing.host with
  | mk handle host =>
      obtain ⟨hfree, hgoes⟩ := goes_await hsettling hawait
      have hsettle : ∀ activity, (match handle.clear.ahead? host with
            | .ok (some stored) => Activity.catchingUp stored
            | _ => Activity.idle) = activity →
          sharing.Goes ((sharing.on host).put name (.holding handle.clear activity)) := by
        rintro _ rfl
        refine .head hbegin (.tail hgoes (.move name .advance ?_))
        simp only [move?, users_put, advance?, hfree, if_true, put_put]
        exact congrArg some (put_put (sharing.on host) name _ _)
      unfold Handle.catchUp
      simp only [bind, Except.bind, pure, Except.pure]
      cases hahead : handle.clear.ahead? host with
      | error cause => exact hsettle .idle (by rw [hahead])
      | ok found =>
          cases found with
          | none => exact hsettle .idle (by rw [hahead])
          | some stored =>
              have hread := hsettle (.catchingUp stored) (by rw [hahead])
              have hlast : ∀ handle', (match handle.clear.takeOver stored host with
                    | .ok handle => handle
                    | .error _ => handle.clear) = handle' →
                  sharing.Goes ((sharing.on host).put name (.holding handle' .idle)) := by
                rintro _ rfl
                refine .tail hread (.move name .advance ?_)
                simp only [move?, users_put, advance?, put_put]
                rfl
              dsimp only
              cases htake : handle.clear.takeOver stored host with
              | error cause => exact hlast handle.clear (by rw [htake])
              | ok handle' => exact hlast handle' (by rw [htake])

variable [LawfulStore σ]

/-- What readers of the store see. -/
def stored (sharing : Sharing ι σ) : ExecutionId → Option StoredExecution :=
  LawfulStore.stored sharing.host.store

/-- Everything that can come of a store of numbered records that nobody has a handle on yet. -/
inductive Reachable : Sharing ι σ → Prop
  | initial {host : Host σ}
      (hnumbered : ∀ id execution, LawfulStore.stored host.store id = some execution →
        execution.Numbered) : Reachable ⟨host, fun _ => .absent⟩
  | step {sharing later : Sharing ι σ} (h : Reachable sharing) (hstep : sharing.Step later) :
      Reachable later

theorem Reachable.goes {sharing later : Sharing ι σ} (h : sharing.Reachable)
    (hgoes : sharing.Goes later) : later.Reachable := by
  induction hgoes with
  | refl => exact h
  | tail _ hstep ih => exact ih.step hstep

theorem Reachable.makeAll (moves : List (ι × Move)) {sharing : Sharing ι σ}
    (h : sharing.Reachable) : (sharing.makeAll moves).Reachable := h.goes (sharing.goes_makeAll moves)

end Sharing

/-- Where an operation stands to the record. -/
def Activity.Sound (handle : Handle) (execution : StoredExecution) : Activity → Prop
  | .idle => True
  | .queued commit => commit.Stems handle.state
  | .awaiting => ∀ flight, handle.flight = some flight → flight.outcome = some (.ok ()) →
      (handle.state.committed flight.commit).Tracks execution
  | .settling => True
  | .catchingUp stored => handle.flight = none ∧
      (ExecutionState.read stored execution).Tracks execution ∧
        handle.state.header.checkpointCount ≤ stored.checkpointCount

/-- Where a handle with an operation stands to the record: the copy was read from it, and a commit on
its way was made of the copy. -/
structure Handle.Sound (handle : Handle) (activity : Activity) (execution : StoredExecution) :
    Prop where
  tracks : handle.state.Tracks execution
  flying : ∀ flight, handle.flight = some flight → flight.outcome = none →
    flight.commit.Suits execution ∧ flight.commit.Based handle.state
  activity : activity.Sound handle execution

def User.Sound (stored : ExecutionId → Option StoredExecution) : User → Prop
  | .absent => True
  | .loading id header => ∃ execution, stored id = some execution ∧
      (ExecutionState.read header execution).Tracks execution
  | .holding handle activity => ∃ execution, stored handle.state.header.id = some execution ∧
      handle.Sound activity execution

section

variable {handle : Handle} {activity : Activity} {execution execution' : StoredExecution}

/-- A commit of somebody else keeps a handle where it is. -/
theorem Handle.Sound.next (h : handle.Sound activity execution)
    (hnext : execution.Next execution') : handle.Sound activity execution' := by
  refine ⟨h.tracks.next hnext, ?_, ?_⟩
  · intro flight hflight houtcome
    obtain ⟨hsuits, hbased⟩ := h.flying flight hflight houtcome
    exact ⟨hsuits.next hnext, hbased⟩
  · have hactivity := h.activity
    cases activity with
    | idle | settling => trivial
    | queued commit => exact hactivity
    | awaiting =>
        intro flight hflight houtcome
        exact (hactivity flight hflight houtcome).next hnext
    | catchingUp stored =>
        obtain ⟨hidle, hread, hcount⟩ := hactivity
        refine ⟨hidle, ?_, hcount⟩
        rw [ExecutionState.read_next hread hnext]
        exact hread.next hnext

theorem User.Sound.grows {stored later : ExecutionId → Option StoredExecution} {user : User}
    (h : user.Sound stored) (hgrows : Grows stored later) : user.Sound later := by
  cases user with
  | absent => trivial
  | loading id header =>
      obtain ⟨execution, hstored, hread⟩ := h
      obtain ⟨execution', hlater, rfl | hnext⟩ := hgrows.onward hstored
      · exact ⟨_, hlater, hread⟩
      · refine ⟨execution', hlater, ?_⟩
        rw [ExecutionState.read_next hread hnext]
        exact hread.next hnext
  | holding handle activity =>
      obtain ⟨execution, hstored, hsound⟩ := h
      obtain ⟨execution', hlater, rfl | hnext⟩ := hgrows.onward hstored
      · exact ⟨_, hlater, hsound⟩
      · exact ⟨execution', hlater, hsound.next hnext⟩

/-- Nothing is on its way. -/
theorem Handle.Sound.settled {state : ExecutionState} {flight : Option Flight}
    (htracks : state.Tracks execution)
    (hfree : ∀ f, flight = some f → f.outcome ≠ none) :
    Handle.Sound ⟨state, flight⟩ .idle execution :=
  ⟨htracks, fun f hflight houtcome => absurd houtcome (hfree f hflight), trivial⟩

end

namespace Sharing

variable {ι σ : Type} [DecidableEq ι] [ExecutionStore σ] [LawfulStore σ]
  {sharing later : Sharing ι σ}

/-- Records are numbered, and every user stands well to them. -/
structure Sound (sharing : Sharing ι σ) : Prop where
  numbered : ∀ id execution, sharing.stored id = some execution → execution.Numbered
  users : ∀ name, (sharing.users name).Sound sharing.stored

/-- What every step keeps, and what it makes of the records. -/
structure Keeps (sharing later : Sharing ι σ) : Prop where
  sound : later.Sound
  grows : Grows sharing.stored later.stored

/-- A move of one user keeps what it has to, if the records grow and the user stands well to them. -/
theorem Sound.put (h : sharing.Sound) {host : Host σ} {name : ι} {user : User}
    (hgrows : Grows sharing.stored (LawfulStore.stored host.store))
    (huser : user.Sound (LawfulStore.stored host.store)) :
    sharing.Keeps ((sharing.on host).put name user) := by
  refine ⟨⟨fun id execution => hgrows.numbered h.numbered, ?_⟩, hgrows⟩
  intro other
  change ((Function.update sharing.users name user) other).Sound (LawfulStore.stored host.store)
  by_cases hother : other = name
  · subst hother
    rw [Function.update_self]
    exact huser
  · rw [Function.update_of_ne hother]
    exact (h.users other).grows hgrows

/-- A move that leaves the records alone. -/
theorem Sound.quiet (h : sharing.Sound) {host : Host σ}
    (hstored : LawfulStore.stored host.store = sharing.stored) {name : ι} {user : User}
    (huser : user.Sound sharing.stored) : sharing.Keeps ((sharing.on host).put name user) := by
  refine h.put ?_ ?_
  · rw [hstored]
    exact .same
  · rw [hstored]
    exact huser

/-- A move of one user alone. -/
theorem Sound.turn (h : sharing.Sound) {name : ι} {user : User}
    (huser : user.Sound sharing.stored) : sharing.Keeps (sharing.put name user) := by
  have hsame : LawfulStore.stored sharing.host.store = sharing.stored := rfl
  exact h.quiet hsame huser

omit [DecidableEq ι] in
theorem Sound.on (h : sharing.Sound) {host : Host σ}
    (hstored : LawfulStore.stored host.store = sharing.stored) :
    sharing.Keeps (sharing.on host) := by
  have hlater : (sharing.on host).stored = sharing.stored := hstored
  refine ⟨⟨?_, ?_⟩, ?_⟩
  · rw [hlater]
    exact h.numbered
  · intro name
    rw [hlater]
    exact h.users name
  · rw [hlater]
    exact .same

theorem Sound.operate (h : sharing.Sound) {name : ι} {handle : Handle}
    (huser : sharing.users name = .holding handle .idle) (operation : StateOperation) :
    sharing.Keeps (sharing.operate name handle operation) := by
  have hsound := h.users name
  rw [huser] at hsound
  obtain ⟨execution, hstored, hsound⟩ := hsound
  obtain ⟨hstore, hcases⟩ := operation.prepare_cases handle sharing.host
  unfold Sharing.operate
  cases hprepare : operation.prepare handle sharing.host with
  | mk result host =>
      simp only [hprepare] at hstore hcases
      have hsame : LawfulStore.stored host.store = sharing.stored := congrArg _ hstore
      obtain ⟨cause, rfl⟩ | ⟨demand, state, rfl, hedit, hsequence⟩ := hcases
      · exact h.on hsame
      · have htracks := hsound.tracks.edit hedit
        have hflying : ∀ flight, handle.flight = some flight → flight.outcome = none →
            flight.commit.Suits execution ∧ flight.commit.Based state := by
          intro flight hflight houtcome
          obtain ⟨hsuits, hbased⟩ := hsound.flying flight hflight houtcome
          exact ⟨hsuits, hbased.edit hedit⟩
        have hstored' : sharing.stored state.header.id = some execution := by
          rw [hedit.id]
          exact hstored
        cases demand with
        | nothing => exact h.quiet hsame ⟨execution, hstored', htracks, hflying, trivial⟩
        | commit checkpoint =>
            have hstamped : LawfulStore.stored host.stamp.2.store = sharing.stored := hsame
            refine h.quiet hstamped
              ⟨execution, hstored', htracks, hflying, Commit.stems_commit _ ?_⟩
            intro c hc
            rw [hsequence c (by rw [hc]), hedit.count]

private theorem ahead_eq {handle : Handle} {host : Host σ} {execution : StoredExecution}
    {header : ExecutionHeader}
    (hstored : LawfulStore.stored host.store handle.state.header.id = some execution)
    (h : handle.ahead? host = .ok (some header)) : header = execution.header := by
  unfold Handle.ahead? at h
  cases hload : ExecutionStore.loadHeader host.store handle.state.id with
  | error cause => simp [hload] at h
  | ok found =>
      obtain rfl := LawfulStore.loadHeader_ok hload
      have hfound : LawfulStore.stored host.store handle.state.id = some execution := hstored
      simp only [hload, hfound, Option.map_some, Except.ok.injEq] at h
      split at h
      · exact (Option.some.inj h).symm
      · cases h

private theorem takeOver_eq {handle handle' : Handle} {host : Host σ}
    {execution : StoredExecution} {header : ExecutionHeader}
    (hstored : LawfulStore.stored host.store handle.state.header.id = some execution)
    (htracks : handle.state.Tracks execution) (hnumbered : execution.Numbered)
    (hcount : handle.state.header.checkpointCount ≤ header.checkpointCount)
    (h : handle.takeOver header host = .ok handle') :
    handle' = { handle with state := .read header execution } := by
  unfold Handle.takeOver at h
  cases hload : ExecutionStore.loadCheckpoints host.store handle.state.id
      handle.state.header.checkpointCount with
  | error cause => simp [hload] at h
  | ok tail =>
      obtain ⟨found, hfound, rfl⟩ := LawfulStore.loadCheckpoints_ok hload
      obtain rfl : execution = found := Option.some.inj (hstored.symm.trans hfound)
      simp only [hload, Handle.mapState, htracks.adopt_eq hnumbered hcount, Except.ok.injEq] at h
      exact h.symm

/-- A copy is put together from the header that was read and the log that is read now. -/
private theorem Sound.load (h : sharing.Sound) {name : ι} {id : ExecutionId}
    {header : ExecutionHeader} (hsound : (User.loading id header).Sound sharing.stored)
    (hmove : sharing.advance? name (.loading id header) = some later) : sharing.Keeps later := by
  obtain ⟨execution, hstored, hread⟩ := hsound
  simp only [advance?, Option.some.injEq] at hmove
  subst hmove
  cases hload : ExecutionStore.loadCheckpoints sharing.host.store id 0 with
  | error cause => exact h.quiet rfl trivial
  | ok log =>
      obtain ⟨found, hfound, rfl⟩ := LawfulStore.loadCheckpoints_ok hload
      obtain rfl : execution = found := Option.some.inj (hstored.symm.trans hfound)
      have hstate : ExecutionState.ofRecord (ExecutionStore.assemble header
          (execution.log.filter (0 ≤ ·.sequence))) = .read header execution := by
        rw [List.filter_eq_self.mpr (by simp)]
        rfl
      simp only [hstate]
      have hid : (ExecutionState.read header execution).header.id = id :=
        hread.id.trans (LawfulStore.stored_id hstored)
      refine h.quiet rfl ⟨execution, ?_, .settled hread (by simp)⟩
      rw [hid]
      exact hstored

section

variable {name : ι} {handle : Handle} {execution : StoredExecution}
  (hstored : sharing.stored handle.state.header.id = some execution)

include hstored

/-- A commit whose turn it is is sent. -/
private theorem Sound.send (h : sharing.Sound) {commit : Commit}
    (hsound : handle.Sound (.queued commit) execution)
    (hmove : sharing.advance? name (.holding handle (.queued commit)) = some later) :
    sharing.Keeps later := by
  cases hfree : isFree handle with
  | false => simp [advance?, hfree] at hmove
  | true =>
      simp only [advance?, hfree, if_true, Option.some.injEq] at hmove
      subst hmove
      have hstems : commit.Stems handle.state := hsound.activity
      refine h.quiet rfl ⟨execution, hstored, hsound.tracks, ?_, ?_⟩
      · rintro _ ⟨⟩ -
        exact ⟨hstems.suits hsound.tracks, hstems.toBased⟩
      · rintro _ ⟨⟩ houtcome
        cases houtcome

/-- A commit is answered for. -/
private theorem Sound.answer (h : sharing.Sound) (hsound : handle.Sound .awaiting execution)
    (hmove : sharing.advance? name (.holding handle .awaiting) = some later) :
    sharing.Keeps later := by
  simp only [advance?, Option.bind_eq_bind, Option.bind_eq_some_iff, Option.some.injEq] at hmove
  obtain ⟨flight, hflight, outcome, houtcome, rfl⟩ := hmove
  cases outcome with
  | error cause => exact h.quiet rfl ⟨execution, hstored, .settled hsound.tracks (by simp)⟩
  | ok _ =>
      have htracks := hsound.activity flight hflight houtcome
      refine h.quiet rfl ⟨execution, ?_, .settled htracks (by simp)⟩
      have hid := htracks.id.trans hsound.tracks.id.symm
      rw [← hid] at hstored
      exact hstored

/-- Where the record stands is asked, once nothing is on its way. -/
private theorem Sound.ask (h : sharing.Sound) (hsound : handle.Sound .settling execution)
    (hmove : sharing.advance? name (.holding handle .settling) = some later) :
    sharing.Keeps later := by
  cases hfree : isFree handle with
  | false => simp [advance?, hfree] at hmove
  | true =>
      simp only [advance?, hfree, if_true, Option.some.injEq] at hmove
      subst hmove
      refine h.quiet rfl ⟨execution, hstored, hsound.tracks, by simp [Handle.clear], ?_⟩
      cases hahead : handle.clear.ahead? sharing.host with
      | error cause => trivial
      | ok found =>
          cases found with
          | none => trivial
          | some stored =>
              obtain rfl := ahead_eq hstored hahead
              have hnumbered := h.numbered _ execution hstored
              refine ⟨rfl, ExecutionState.tracks_read hnumbered, ?_⟩
              change handle.state.header.checkpointCount ≤ execution.header.checkpointCount
              rw [hsound.tracks.count, hnumbered.count]
              exact hsound.tracks.log.length_le

/-- A copy catches up with the record. -/
private theorem Sound.catchUp (h : sharing.Sound) {stored : ExecutionHeader}
    (hsound : handle.Sound (.catchingUp stored) execution)
    (hmove : sharing.advance? name (.holding handle (.catchingUp stored)) = some later) :
    sharing.Keeps later := by
  simp only [advance?, Option.some.injEq] at hmove
  subst hmove
  obtain ⟨hidle, hread, hcount⟩ := hsound.activity
  cases htake : handle.takeOver stored sharing.host with
  | error cause =>
      exact h.quiet rfl ⟨execution, hstored, hsound.tracks, hsound.flying, trivial⟩
  | ok handle' =>
      have hnumbered := h.numbered _ execution hstored
      obtain rfl := takeOver_eq hstored hsound.tracks hnumbered hcount htake
      have hid := hread.id.trans hsound.tracks.id.symm
      refine h.quiet rfl ⟨execution, ?_, .settled hread (by simp [hidle])⟩
      rw [← hid] at hstored
      exact hstored

end

theorem Sound.advance (h : sharing.Sound) {name : ι}
    (hmove : sharing.advance? name (sharing.users name) = some later) : sharing.Keeps later := by
  have hsound := h.users name
  cases huser : sharing.users name with
  | absent => simp [huser, advance?] at hmove
  | loading id header =>
      rw [huser] at hsound hmove
      exact h.load hsound hmove
  | holding handle activity =>
      rw [huser] at hsound hmove
      obtain ⟨execution, hstored, hsound⟩ := hsound
      cases activity with
      | idle => simp [advance?] at hmove
      | queued commit => exact h.send hstored hsound hmove
      | awaiting => exact h.answer hstored hsound hmove
      | settling => exact h.ask hstored hsound hmove
      | catchingUp stored => exact h.catchUp hstored hsound hmove

theorem Sound.create (h : sharing.Sound) {name : ι} {request : StartRequest} {steps : Nat}
    (huser : sharing.users name = .absent)
    (hmove : sharing.move? name (.create request steps) = some later) : sharing.Keeps later := by
  obtain ⟨header, host', ⟨_, _, _, hheader⟩, -, hstore, hrefused, hcreated⟩ :=
    Handle.create_cases request steps sharing.host
  cases hinsert : (ExecutionStore.insert sharing.host.store header).1 with
  | error cause =>
      simp only [move?, huser, hrefused cause hinsert, Option.some.injEq] at hmove
      subst hmove
      refine h.on ?_
      rw [hstore]
      exact LawfulStore.insert_error hinsert
  | ok _ =>
      simp only [move?, huser, hcreated hinsert, Option.some.injEq] at hmove
      subst hmove
      obtain ⟨habsent, hstored⟩ := LawfulStore.insert_ok hinsert
      rw [← hstore] at hstored
      have hnumbered : StoredExecution.Numbered ⟨header, []⟩ := ⟨by rw [hheader]; rfl, rfl⟩
      have htracks := ExecutionState.tracks_read hnumbered
      refine h.put ?_ ⟨⟨header, []⟩, ?_, .settled ?_ (by simp)⟩
      · rw [hstored]
        exact .created habsent hnumbered.count
      · rw [hstored]
        exact Function.update_self ..
      · simpa [ExecutionState.read, ExecutionStore.assemble] using htracks

omit [DecidableEq ι] in
/-- A commit takes effect on the version it was made from, or nothing happens. -/
theorem Sound.commit_cases (h : sharing.Sound) {name : ι} {handle : Handle} {activity : Activity}
    {flight : Flight} (huser : sharing.users name = .holding handle activity)
    (hflight : handle.flight = some flight) (houtcome : flight.outcome = none) :
    (∃ cause, (ExecutionStore.commit sharing.host.store flight.commit).1 = .error cause ∧
      LawfulStore.stored (ExecutionStore.commit sharing.host.store flight.commit).2 =
        sharing.stored) ∨
    ∃ before, sharing.stored handle.state.header.id = some before ∧
      before.header.version = flight.commit.expected ∧
      before.Next (before.extend flight.commit) ∧
      (ExecutionStore.commit sharing.host.store flight.commit).1 = .ok () ∧
      LawfulStore.stored (ExecutionStore.commit sharing.host.store flight.commit).2 =
        Function.update sharing.stored handle.state.header.id
          (some (before.extend flight.commit)) := by
  have hsound := h.users name
  rw [huser] at hsound
  obtain ⟨execution, hstored, hsound⟩ := hsound
  obtain ⟨hsuits, hbased⟩ := hsound.flying flight hflight houtcome
  cases hresult : (ExecutionStore.commit sharing.host.store flight.commit).1 with
  | error cause => exact Or.inl ⟨cause, rfl, LawfulStore.commit_error hresult⟩
  | ok _ =>
      obtain ⟨before, hbefore, hexpected, hafter⟩ := LawfulStore.commit_ok hresult
      rw [hbased.id] at hbefore hafter
      obtain rfl : execution = before := Option.some.inj (hstored.symm.trans hbefore)
      exact Or.inr ⟨execution, hstored, hexpected, hsuits.2 hexpected.symm, rfl, hafter⟩

theorem Sound.land (h : sharing.Sound) {name : ι} {handle : Handle} {activity : Activity}
    {flight : Flight} (huser : sharing.users name = .holding handle activity)
    (hflight : handle.flight = some flight) (houtcome : flight.outcome = none) :
    let (handle', store) := handle.land sharing.host.store
    sharing.Keeps
      ((sharing.on { sharing.host with store }).put name (.holding handle' activity)) := by
  have hsound := h.users name
  rw [huser] at hsound
  obtain ⟨execution, hstored, hsound⟩ := hsound
  have hbased := (hsound.flying flight hflight houtcome).2
  have hcases := h.commit_cases huser hflight houtcome
  simp only [Handle.land, hflight, houtcome]
  obtain ⟨cause, hresult, hafter⟩ | ⟨before, hbefore, hexpected, hnext, hresult, hafter⟩ := hcases
  · simp only [hresult]
    refine h.put ?_ ⟨execution, ?_, hsound.tracks, ?_, ?_⟩
    · rw [hafter]
      exact .same
    · rw [hafter]
      exact hstored
    · rintro _ ⟨⟩ hnone
      cases hnone
    · have hactivity := hsound.activity
      cases activity with
      | idle | settling => trivial
      | queued commit => exact hactivity
      | awaiting =>
          rintro _ ⟨⟩ hok
          cases hok
      | catchingUp stored =>
          rw [hactivity.1] at hflight
          cases hflight
  · obtain rfl : execution = before := Option.some.inj (hstored.symm.trans hbefore)
    simp only [hresult]
    refine h.put ?_ ⟨execution.extend flight.commit, ?_, hsound.tracks.next hnext, ?_, ?_⟩
    · rw [hafter]
      exact .committed hstored hnext
    · rw [hafter]
      exact Function.update_self ..
    · rintro _ ⟨⟩ hnone
      cases hnone
    · have hactivity := hsound.activity
      cases activity with
      | idle | settling => trivial
      | queued commit => exact hactivity
      | awaiting =>
          rintro _ ⟨⟩ -
          exact hbased.tracks hsound.tracks hexpected
      | catchingUp stored =>
          rw [hactivity.1] at hflight
          cases hflight

/-- Who resumes has read a header of the record. -/
theorem Sound.resume (h : sharing.Sound) {name : ι} {id : ExecutionId} {header : ExecutionHeader}
    (hload : ExecutionStore.loadHeader sharing.host.store id = .ok (some header)) :
    sharing.Keeps (sharing.put name (.loading id header)) := by
  obtain ⟨execution, hstored, rfl⟩ :=
    Option.map_eq_some_iff.mp (LawfulStore.loadHeader_ok hload).symm
  exact h.turn
    ⟨execution, hstored, ExecutionState.tracks_read (h.numbered id execution hstored)⟩

private theorem flight_of_not_free {handle : Handle} (h : isFree handle = false) :
    ∃ flight, handle.flight = some flight ∧ flight.outcome = none := by
  unfold isFree at h
  cases hflight : handle.flight with
  | none => simp [hflight] at h
  | some flight => exact ⟨flight, rfl, by simpa [hflight] using h⟩

theorem Sound.step (h : sharing.Sound) (hstep : sharing.Step later) : sharing.Keeps later := by
  cases hstep with
  | elsewhere host hstore => exact h.on (congrArg LawfulStore.stored hstore)
  | move name move hmove =>
      have huser := h.users name
      cases hcase : sharing.users name with
      | absent =>
          cases move with
          | create request steps => exact h.create hcase hmove
          | resume id =>
              simp only [move?, hcase] at hmove
              split at hmove
              · rename_i header hload
                obtain rfl := Option.some.inj hmove
                exact h.resume hload
              · cases hmove
          | _ => simp [move?, advance?, hcase] at hmove
      | loading id header =>
          cases move with
          | advance =>
              simp only [move?, hcase] at hmove
              exact h.advance (hcase ▸ hmove)
          | drop =>
              simp only [move?, hcase, Option.some.injEq] at hmove
              subst hmove
              exact h.turn trivial
          | _ => simp [move?, hcase] at hmove
      | holding handle activity =>
          rw [hcase] at huser
          obtain ⟨execution, hstored, hsound⟩ := huser
          cases move with
          | advance =>
              simp only [move?, hcase] at hmove
              exact h.advance (hcase ▸ hmove)
          | land =>
              cases hfree : isFree handle with
              | true => simp [move?, hcase, hfree] at hmove
              | false =>
                  obtain ⟨flight, hflight, houtcome⟩ := flight_of_not_free hfree
                  simp only [move?, hcase, hfree, Bool.false_eq_true, if_false,
                    Option.some.injEq] at hmove
                  subst hmove
                  exact h.land hcase hflight houtcome
          | drop =>
              simp only [move?, hcase, Option.some.injEq] at hmove
              subst hmove
              exact h.turn
                ⟨execution, hstored, hsound.tracks, hsound.flying, trivial⟩
          | operate operation =>
              cases activity with
              | idle =>
                  simp only [move?, hcase, Option.some.injEq] at hmove
                  subst hmove
                  exact h.operate hcase operation
              | _ => simp [move?, hcase] at hmove
          | reconcile =>
              cases activity with
              | idle =>
                  simp only [move?, hcase, Option.some.injEq] at hmove
                  subst hmove
                  exact h.turn
                    ⟨execution, hstored, hsound.tracks, hsound.flying, trivial⟩
              | _ => simp [move?, hcase] at hmove
          | _ => simp [move?, hcase] at hmove

theorem Reachable.sound (h : sharing.Reachable) : sharing.Sound := by
  induction h with
  | initial hnumbered => exact ⟨hnumbered, fun _ => trivial⟩
  | step _ hstep ih => exact (ih.step hstep).sound

/-- Completed stays completed, however long the others go on. -/
theorem Sound.completed (h : sharing.Sound) (hgoes : sharing.Goes later) {id : ExecutionId}
    {execution : StoredExecution} (hstored : sharing.stored id = some execution)
    (hcompleted : execution.header.status = .completed) :
    ∃ execution', later.stored id = some execution' ∧ execution'.header.status = .completed := by
  suffices hboth : later.Sound ∧
      ∃ execution', later.stored id = some execution' ∧ execution'.header.status = .completed from
    hboth.2
  induction hgoes with
  | refl => exact ⟨h, execution, hstored, hcompleted⟩
  | tail _ hstep ih =>
      obtain ⟨hsound, before, hbefore, hfinal⟩ := ih
      obtain ⟨hlater, hgrows⟩ := hsound.step hstep
      obtain ⟨after, hafter, rfl | hnext⟩ := hgrows.onward hbefore
      · exact ⟨hlater, _, hafter, hfinal⟩
      · exact ⟨hlater, after, hafter, hnext.final hfinal⟩

end Sharing

namespace Sample

/-- One user creates an execution and another one resumes it. The first is dropped out of a checkpoint,
which takes effect all the same, and before a save of the other one. -/
def race : Sharing Bool MemoryStore :=
  let first : Sharing Bool MemoryStore := ⟨{ store := {}, bus := default }, fun _ => .absent⟩
  first.makeAll [
    (false, .create ⟨gated, "user", []⟩ 3), (true, .resume firstId), (true, .advance),
    (false, .operate (.checkpoint "first" "first" ["gate"])), (false, .advance), (false, .drop),
    (true, .operate .save), (true, .advance), (false, .land)]

end Sample

namespace Sharing

end Sharing

end WorkflowEngine
