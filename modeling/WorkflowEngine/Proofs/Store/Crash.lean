import WorkflowEngine.Proofs.Store.Mirror

/-!
# Crashes

A process may stop within any call that writes to a store in files, after any part of what the call does,
and open the store again, any number of times. What is read then is what a store in memory would say
that made the answered calls and, of each interrupted one, all or nothing. A rename and an operation that
has returned are taken to last.
-/
namespace WorkflowEngine

/-- What happens to a store: a call is answered, or the process stops within one and the store is opened
again. -/
inductive StoreEvent where
  | answered (call : StoreCall) (result : Except StoreError Unit)
  | cut (call : StoreCall)

namespace StoreEvent

def call : StoreEvent → StoreCall
  | .answered call _ => call
  | .cut call => call

/-- How much is added to logs, at most. -/
def volume (events : List StoreEvent) : Nat := (events.map (·.call.size)).sum

/-- The call may leave a record as it is. -/
def Spares (record : Option StoredExecution) : StoreEvent → Prop
  | .answered call result => ∃ cause, result = .error cause ∧ call.verdict record = .error cause
  | .cut _ => True

/-- The call may put another record in place of one. -/
def Makes (record : Option StoredExecution) (e : StoredExecution) : StoreEvent → Prop
  | .answered call result => result = .ok () ∧ call.verdict record = .ok e
  | .cut call => call.verdict record = .ok e

/-- Records that files may hold after events, latest first. -/
inductive Yields : List StoreEvent → (ExecutionId → Option StoredExecution) → Prop
  | nothing : Yields [] fun _ => none
  | spared {event : StoreEvent} {events : List StoreEvent}
      {records : ExecutionId → Option StoredExecution} (yields : Yields events records)
      (spares : event.Spares (records event.call.id)) : Yields (event :: events) records
  | made {event : StoreEvent} {events : List StoreEvent}
      {records : ExecutionId → Option StoredExecution} {e : StoredExecution}
      (yields : Yields events records) (makes : event.Makes (records event.call.id) e) :
      Yields (event :: events) (Function.update records event.call.id (some e))

variable {event : StoreEvent} {events : List StoreEvent}
  {records : ExecutionId → Option StoredExecution} {e : StoredExecution}

theorem Makes.verdict {record : Option StoredExecution} (makes : event.Makes record e) :
    event.call.verdict record = .ok e := by
  cases event with
  | answered call result => exact makes.2
  | cut call => exact makes

/-- What holds of all records and of a new one holds of all records with the new one. -/
theorem forall_update {Q : StoredExecution → Prop} (old : ∀ id, ∀ e ∈ records id, Q e) (new : Q e)
    (changed : ExecutionId) :
    ∀ id, ∀ made ∈ Function.update records changed (some e) id, Q made := by
  intro id made mem
  by_cases here : id = changed
  · subst here
    rw [Function.update_self] at mem
    exact Option.mem_some_iff.mp mem ▸ new
  · rw [Function.update_of_ne here] at mem
    exact old id made mem

/-- No log is longer than what was added to all. -/
theorem Yields.length_log (yields : Yields events records) :
    ∀ id, ∀ e ∈ records id, (FileStore.logOf e.log).length ≤ volume events := by
  induction yields with
  | nothing => intro id e mem; cases mem
  | spared yields spares ih =>
    intro id e mem
    exact (ih id e mem).trans (Nat.le_add_left _ _)
  | @made event events records e yields makes ih =>
    have new := StoreCall.length_outcome (StoreCall.outcome_of_verdict makes.verdict) (ih _)
    exact forall_update (fun id old mem => (ih id old mem).trans (Nat.le_add_left _ _)) new
      event.call.id

end StoreEvent

namespace MemoryStore

/-- A store in memory that goes along with events, latest first: it makes the calls that are answered,
with these answers, and makes or leaves out the interrupted ones. -/
inductive Follows : List StoreEvent → MemoryStore → Prop
  | start : Follows [] {}
  | answered {events : List StoreEvent} {memory : MemoryStore} (follows : Follows events memory)
      (call : StoreCall) :
      Follows (.answered call (call.perform memory).1 :: events) (call.perform memory).2
  | lost {events : List StoreEvent} {memory : MemoryStore} (follows : Follows events memory)
      (call : StoreCall) : Follows (.cut call :: events) memory
  | landed {events : List StoreEvent} {memory : MemoryStore} (follows : Follows events memory)
      (call : StoreCall) : Follows (.cut call :: events) (call.perform memory).2

end MemoryStore

namespace StoreEvent

variable {events : List StoreEvent} {records : ExecutionId → Option StoredExecution}

/-- What shallow calls may have made of files can be read, and is what they may make of memory. -/
theorem Yields.follows (yields : Yields events records)
    (shallow : ∀ event ∈ events, event.call.Shallow) :
    (∀ id, ∀ e ∈ records id, e.Shallow) ∧
      ∃ memory, MemoryStore.Follows events memory ∧ memory.find? = records := by
  induction yields with
  | nothing => exact ⟨(fun id e mem => by cases mem), {}, .start, rfl⟩
  | @spared event events records yields spares ih =>
    rw [List.forall_mem_cons] at shallow
    obtain ⟨readable, memory, follows, rfl⟩ := ih shallow.2
    refine ⟨readable, memory, ?_, rfl⟩
    cases event with
    | cut call => exact follows.lost call
    | answered call result =>
      obtain ⟨cause, rfl, verdict⟩ := spares
      rw [StoreCall.verdict_of_shallow fun e mem => (readable _ e mem).header] at verdict
      have answered := follows.answered call
      rwa [MemoryStore.perform_error verdict] at answered
  | @made event events records e yields makes ih =>
    rw [List.forall_mem_cons] at shallow
    obtain ⟨readable, memory, follows, rfl⟩ := ih shallow.2
    have accepted := StoreCall.outcome_of_verdict makes.verdict
    obtain ⟨ok, found⟩ := MemoryStore.perform_ok accepted
    refine ⟨forall_update readable (StoredExecution.shallow_outcome accepted shallow.1 (readable _)) _,
      (event.call.perform memory).2, ?_, found⟩
    cases event with
    | cut call => exact follows.landed call
    | answered call result =>
      obtain ⟨rfl, -⟩ := makes
      have answered := follows.answered call
      rwa [show (call.perform memory).1 = _ from ok] at answered

end StoreEvent

namespace FileStore

open StoreEvent

/-- What becomes of a store by events, latest first. -/
inductive Lives (start : FileStore) : List StoreEvent → FileStore → Prop
  | start : Lives start [] start
  | answered {events : List StoreEvent} {store : FileStore} (lives : Lives start events store)
      (call : StoreCall) :
      Lives start (.answered call (call.perform store).1 :: events) (call.perform store).2
  | cut {events : List StoreEvent} {store reopened : FileStore} {left : FileSystem}
      (lives : Lives start events store) (call : StoreCall)
      (stops : (call.program store.root).run.Leaves store.files left)
      (opens : openAt store.root left = .ok reopened) : Lives start (.cut call :: events) reopened

variable {root : Path} {files fs : FileSystem} {start store : FileStore} {events : List StoreEvent}
  {records : ExecutionId → Option StoredExecution} {call : StoreCall}

/-- A store that is opened where nothing of an execution is holds nothing. -/
theorem holding_of_open (fresh : ∀ id below, files.find? (directory root id ++ below) = none)
    (opened : openAt root files = .ok start) :
    start.root = root ∧ Holding root (fun _ => none) start.files := by
  unfold openAt at opened
  split at opened
  case h_2 => cases opened
  case h_1 made created =>
    cases opened
    have empty (id : ExecutionId) (below : Path) : made.find? (directory root id ++ below) = none := by
      rw [FileSystem.find?_of_createDirectories created, fresh]
      intro mem
      have short := length_of_way mem
      simp [directory] at short
    have absent (id : ExecutionId) (name : String) : made.find? (filePath root id name) = none :=
      empty id [name]
    refine ⟨rfl, ⟨FileSystem.reaches_of_createDirectories created, fun id => .inl ?_, ?_, ?_⟩,
      fun id => absent id headerFile, fun id e mem => by cases mem⟩
    · have none := empty id []
      rwa [List.append_nil] at none
    · intro id name
      rw [absent]
      simp
    · intro id name there
      exact absurd (absent id name) there

/-- A call that may be stopped, on files that hold records. -/
theorem Holding.keeps (holding : Holding root records fs) {events : List StoreEvent}
    (yields : Yields events records) (legible : call.Of Binary64.Legible)
    (room : call.size + volume events < UInt64.size) :
    (call.program root).run.Keeps
      (fun left => ∃ later, Yields (.cut call :: events) later ∧ Holding root later left)
      (fun result left => ∃ later, Yields (.answered call result :: events) later ∧
        Holding root later left) fs := by
  cases verdict : call.verdict (records call.id) with
  | error cause =>
    apply (holding.keeps_of_error verdict).weaken
    · rintro left rfl
      exact ⟨records, .spared yields trivial, holding⟩
    · rintro result left ⟨rfl, rfl⟩
      exact ⟨records, .spared yields ⟨cause, rfl, verdict⟩, holding⟩
  | ok e =>
    have accepted := StoreCall.outcome_of_verdict verdict
    have length := StoreCall.length_outcome accepted (yields.length_log call.id)
    have new := StoredExecution.of_outcome accepted legible (holding.legible call.id) (length.trans_lt room)
    apply (holding.replaces verdict new).weaken
    · rintro left (still | landed)
      · exact ⟨records, .spared yields trivial, still⟩
      · have makes : Makes (records call.id) e (.cut call) := verdict
        exact ⟨_, .made yields makes, landed⟩
    · rintro result left ⟨rfl, landed⟩
      have makes : Makes (records call.id) e (.answered call (.ok ())) := ⟨rfl, verdict⟩
      exact ⟨_, .made yields makes, landed⟩

/-- Whatever happened to a store, its files hold records that the events may have made. -/
theorem Lives.yields (fresh : ∀ id below, files.find? (directory root id ++ below) = none)
    (opened : openAt root files = .ok start) (lives : Lives start events store)
    (legible : ∀ event ∈ events, event.call.Of Binary64.Legible)
    (room : volume events < UInt64.size) :
    store.root = root ∧ ∃ records, Yields events records ∧ Holding root records store.files := by
  induction lives with
  | start =>
    obtain ⟨same, holding⟩ := holding_of_open fresh opened
    exact ⟨same, _, .nothing, holding⟩
  | answered lives call ih =>
    rw [List.forall_mem_cons] at legible
    obtain ⟨rfl, records, yields, holding⟩ := ih legible.2 ((Nat.le_add_left _ _).trans_lt room)
    have keeps := holding.keeps yields legible.1 room
    rw [perform_eq]
    exact ⟨rfl, keeps.run⟩
  | cut lives call stops opens ih =>
    rw [List.forall_mem_cons] at legible
    obtain ⟨rfl, records, yields, holding⟩ := ih legible.2 ((Nat.le_add_left _ _).trans_lt room)
    have keeps := holding.keeps yields legible.1 room
    obtain ⟨later, yields, holding⟩ := keeps.leaves stops
    rw [openAt_of_reaches holding.laid.reaches] at opens
    cases opens
    exact ⟨rfl, later, yields, holding⟩

/-- Whatever calls were interrupted wherever, a store in files reads and answers as a store in memory that
made the answered calls and all or nothing of each interrupted one, and can always be opened again. -/
theorem Lives.atomic (fresh : ∀ id below, files.find? (directory root id ++ below) = none)
    (opened : openAt root files = .ok start) (lives : Lives start events store)
    (whole : ∀ event ∈ events, event.call.Of Binary64.Whole)
    (shallow : ∀ event ∈ events, event.call.Shallow) (room : volume events < UInt64.size) :
    ∃ memory, MemoryStore.Follows events memory ∧ store.Shows memory ∧
      ∀ call : StoreCall, call.Of Binary64.Whole → call.size + volume events < UInt64.size →
        (call.perform store).1 = (call.perform memory).1 ∧
        ∀ left, (call.program store.root).run.Leaves store.files left →
          ∃ reopened, openAt store.root left = .ok reopened := by
  have legible {call : StoreCall} (whole : call.Of Binary64.Whole) : call.Of Binary64.Legible :=
    StoreCall.Of.mono (fun _ => Binary64.Whole.legible) whole
  obtain ⟨rfl, records, yields, holding⟩ :=
    lives.yields fresh opened (fun event mem => legible (whole event mem)) room
  obtain ⟨readable, memory, follows, rfl⟩ := yields.follows shallow
  refine ⟨memory, follows, holding.shows readable, fun call whole room => ⟨?_, ?_⟩⟩
  · refine (holding.goes_along readable fun e outcome => ?_).1
    have length := StoreCall.length_outcome outcome (yields.length_log call.id)
    exact StoredExecution.of_outcome outcome (legible whole) (holding.legible call.id) (length.trans_lt room)
  · intro left stops
    obtain ⟨later, -, kept⟩ := (holding.keeps yields (legible whole) room).leaves stops
    exact ⟨_, openAt_of_reaches kept.laid.reaches⟩

namespace Sample

def moment : Timestamp := ⟨2026, 1, 1, 0, 0, 0, 0⟩

def context : Context := [("n", .number (Binary64.ofInt 1))]

def header (version : Nat) : ExecutionHeader where
  id := .nil
  workflowId := "w"
  userId := "u"
  status := .running
  context := context
  currentStep := version
  totalSteps := 2
  error := none
  version := version
  checkpointCount := version
  createdAt := moment
  updatedAt := moment

def checkpoint (name : String) : Checkpoint where
  id := .nil
  sequence := 0
  nodeId := "a"
  nodeName := name
  stepNumber := 1
  context := context
  pending := []
  timestamp := moment
  error := none

/-- A commit of the first checkpoint. -/
def commit (name : String) : Commit := ⟨header 1, [checkpoint name], 0⟩

def insertion : StoreCall := .insert (header 0)

def commitment : StoreCall := .commit (commit "a")

theorem whole_context : context.Of Binary64.Whole :=
  .object (by simp [Fields.Sorted, context])
    (by simpa [context] using .number ⟨1, by decide, by decide⟩)

theorem shallow_context : context.Shallow := by decide

theorem whole_header {version : Nat} (small : version < 2) : (header version).Of Binary64.Whole where
  currentStep := small.trans (by decide)
  totalSteps := show 2 < UInt32.size by decide
  version := small.trans (by decide)
  checkpointCount := small.trans (by decide)
  createdAt := show moment.isValid = true by decide
  updatedAt := show moment.isValid = true by decide
  context := whole_context

theorem whole_insertion : insertion.Of Binary64.Whole :=
  ⟨whole_header (by decide), by intro c mem; cases mem⟩

theorem shallow_insertion : insertion.Shallow :=
  ⟨shallow_context, by intro c mem; cases mem⟩

theorem whole_commit (name : String) : (StoreCall.commit (commit name)).Of Binary64.Whole := by
  refine ⟨whole_header (by decide), fun c mem => ?_⟩
  rw [List.mem_singleton.mp mem]
  exact ⟨show 0 < UInt64.size by decide, show 1 < UInt32.size by decide,
    show moment.isValid = true by decide, whole_context⟩

theorem shallow_commit (name : String) : (StoreCall.commit (commit name)).Shallow := by
  refine ⟨shallow_context, fun c mem => ?_⟩
  rw [List.mem_singleton.mp mem]
  exact shallow_context

variable {events : List StoreEvent}

theorem known_call (known : events.map (·.call) ⊆ [insertion, commitment]) {event : StoreEvent}
    (mem : event ∈ events) : event.call = insertion ∨ event.call = commitment := by
  simpa using known (List.mem_map_of_mem mem)

theorem whole_calls (known : events.map (·.call) ⊆ [insertion, commitment]) :
    ∀ event ∈ events, event.call.Of Binary64.Whole := by
  intro event mem
  rcases known_call known mem with call | call <;> rw [call]
  exacts [whole_insertion, whole_commit "a"]

theorem shallow_calls (known : events.map (·.call) ⊆ [insertion, commitment]) :
    ∀ event ∈ events, event.call.Shallow := by
  intro event mem
  rcases known_call known mem with call | call <;> rw [call]
  exacts [shallow_insertion, shallow_commit "a"]

/-- A store in an empty directory. -/
def opened : FileStore := ⟨["data"], ⟨[(["data"], .directory)]⟩⟩

theorem fresh (id : ExecutionId) (below : Path) :
    (FileSystem.mk []).find? (directory ["data"] id ++ below) = none := by
  rw [FileSystem.find?_eq (by simp [directory])]
  rfl

theorem openAt_data : openAt ["data"] ⟨[]⟩ = .ok opened := rfl

end Sample

/-- A commit stops when its checkpoint is in the log and its header is not, and is made again after the
store has been opened again. -/
theorem Lives.atomic_of_torn_commit :
    ∃ events store, Lives Sample.opened events store ∧
      events.map (·.call) = [Sample.commitment, Sample.commitment, Sample.insertion] ∧
      ∃ memory, MemoryStore.Follows events memory ∧ store.Shows memory := by
  have inserted := @Lives.answered Sample.opened _ _ .start Sample.insertion
  have known : [Sample.insertion] ⊆ [Sample.insertion, Sample.commitment] := by simp
  obtain ⟨memory, -, -, ahead⟩ := Lives.atomic Sample.fresh Sample.openAt_data inserted (Sample.whole_calls known)
    (Sample.shallow_calls known) (by decide)
  -- the header is read, the log is cut, the checkpoint is written
  have stops := FileProgram.leaves_stoppedAfter 3
    (Sample.commitment.program (Sample.insertion.perform Sample.opened).2.root).run
    (Sample.insertion.perform Sample.opened).2.files
  obtain ⟨reopened, opens⟩ :=
    (ahead Sample.commitment (Sample.whole_commit "a") (by decide +kernel)).2 _ stops
  have again := (inserted.cut Sample.commitment stops opens).answered Sample.commitment
  have known : [Sample.commitment, Sample.commitment, Sample.insertion] ⊆
      [Sample.insertion, Sample.commitment] := by simp
  have room : Sample.commitment.size + (Sample.commitment.size + (Sample.insertion.size + 0)) <
      UInt64.size := by decide +kernel
  obtain ⟨memory, follows, shows, -⟩ := Lives.atomic Sample.fresh Sample.openAt_data again (Sample.whole_calls known)
    (Sample.shallow_calls known) room
  exact ⟨_, _, again, rfl, memory, follows, shows⟩

end FileStore

end WorkflowEngine
