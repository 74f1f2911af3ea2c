import WorkflowEngine.Proofs.Session.Filed
import WorkflowEngine.Proofs.Store.Crash

/-!
# What files give back

A store in files acknowledges a record whatever its contexts hold, and reads it back only where they are
nested less deep than the reader goes: a context takes up a level more in its record than in the text it
came from. As long as contexts are shallow, a run on files ends as the run in memory does.

Numbers that are not read back as they were written are left out.
-/
namespace WorkflowEngine

namespace FileStore

open StoreEvent

variable {root : Path} {files fs : FileSystem} {start store : FileStore} {events : List StoreEvent}
  {records : ExecutionId → Option StoredExecution} {call : StoreCall} {e : StoredExecution}

/-- The record that an acknowledged call makes is in the files, readable or not. -/
theorem Lives.acknowledged (fresh : ∀ id below, files.find? (directory root id ++ below) = none)
    (opened : openAt root files = .ok start)
    (lives : Lives start (.answered call (.ok ()) :: events) store)
    (legible : ∀ event ∈ .answered call (.ok ()) :: events, event.call.Of Binary64.Legible)
    (room : volume (.answered call (.ok ()) :: events) < UInt64.size) :
    store.root = root ∧ ∃ records e, Yields events records ∧ call.outcome (records call.id) = .ok e ∧
      Holding root (Function.update records call.id (some e)) store.files := by
  obtain ⟨same, later, yields, holding⟩ := lives.yields fresh opened legible room
  cases yields with
  | spared _ spares =>
    obtain ⟨cause, refused, -⟩ := spares
    cases refused
  | made yields makes =>
    exact ⟨same, _, _, yields, StoreCall.outcome_of_verdict makes.verdict, holding⟩

namespace Sample

/-- A run in memory. -/
def run : Session MemoryStore :=
  Session.ask { engine := { registry := WorkflowEngine.Sample.registry }, host := { store := {}, bus := default } }
    (WorkflowEngine.Sample.start WorkflowEngine.Sample.single)

end Sample

/-- What the store accepts it acknowledges, and it holds it from then on. -/
theorem Holding.accepts (holding : Holding root records fs)
    (accepted : call.verdict (records call.id) = .ok e) (legible : e.Of Binary64.Legible) :
    ∃ left, call.perform (FileStore.mk root fs) = (.ok (), ⟨root, left⟩) ∧
      Holding root (Function.update records call.id (some e)) left := by
  obtain ⟨ok, landed⟩ := (holding.replaces accepted legible).run
  refine ⟨_, ?_, landed⟩
  rw [perform_eq, ok]

/-- A new execution is acknowledged whatever its context holds. -/
theorem Holding.insert_new (holding : Holding root records fs) {header : ExecutionHeader}
    (absent : records header.id = none) :
    ∃ left, ExecutionStore.insert (FileStore.mk root fs) header = (.ok (), ⟨root, left⟩) ∧
      Holds root header.id left (some ⟨header, []⟩) := by
  have accepted : StoreCall.verdict (.insert header) (records header.id) = .ok ⟨header, []⟩ := by
    rw [absent]
    rfl
  have held := holding.holds header.id
  rw [absent] at held
  have turns : (insertProgram root header).run.Turns (fun _ => True) (fun _ => False)
      (fun result left => result = .ok () ∧ Holds root header.id left (some ⟨header, []⟩)) fs := by
    rw [run_insertProgram]
    apply turns_decided trivial
    rw [holding.headerOf_read, seen_judgeInsert, accepted]
    apply (changes_insert holding.laid held).weaken
    · exact fun _ _ => trivial
    · exact fun _ refused => refused
    · rintro result left ⟨ok, -, new⟩
      exact ⟨ok, new⟩
  obtain ⟨-, none⟩ | ⟨ok, new⟩ := turns.keeps.run
  · exact none.elim
  refine ⟨_, ?_, new⟩
  rw [← ok]
  rfl

theorem decode_of_readChars {stored back : StoredHeader} {json : Json}
    (read : Json.readChars (stored.toJson.prettyChars 0) = .ok json)
    (decoded : StoredHeader.decode json = .ok back) :
    Bytes.decode StoredHeader.decode stored.encode = .ok back := by
  rw [Bytes.decode, StoredHeader.encode, Bytes.text?_ofText]
  simp only [Json.decodeText, Json.read, Json.pretty, String.toList_ofList, read, decoded]

/-- A record without checkpoints is what its header file is read as. -/
theorem load_of_holds {id : ExecutionId} {header back : ExecutionHeader}
    (holds : Holds root id fs (some ⟨header, []⟩))
    (decoded : Bytes.decode StoredHeader.decode (StoredHeader.encode ⟨header, 0⟩) = .ok ⟨back, 0⟩) :
    ExecutionStore.load (FileStore.mk root fs) id = .ok (some (ExecutionStore.assemble back [])) := by
  have found : headerOf (fs.read (headerPath root id)) = .ok (some ⟨back, 0⟩) := by
    rw [FileSystem.read, show fs.find? (headerPath root id) = _ from holds.1]
    change headerOf (.ok (StoredHeader.encode ⟨header, 0⟩)) = _
    rw [headerOf, decoded]
    rfl
  have read : ExecutionStore.loadHeader (FileStore.mk root fs) id = .ok (some back) := by
    change Except.map _ (FileProgram.run (readHeader root id).run fs).1 = _
    rw [run_readHeader, found]
    rfl
  have log : ExecutionStore.loadCheckpoints (FileStore.mk root fs) id 0 = .ok [] := by
    change (FileProgram.run (loadCheckpointsProgram root id 0).run fs).1 = _
    rw [loadCheckpointsProgram, run_of_readHeader, found]
    rfl
  rw [ExecutionStore.load, read, log]
  rfl

namespace Sample

/-- Objects within objects. -/
def nested : Nat → Value
  | 0 => .object []
  | n + 1 => .object [("k", nested n)]

theorem nested_of (P : Binary64 → Prop) (n : Nat) : (nested n).Of P := by
  induction n with
  | zero => exact .object List.Pairwise.nil (by simp)
  | succ n ih => exact .object (List.pairwise_singleton _ _) (by simpa using ih)

/-- A context that is nested as deep as a text may be. -/
def deepContext : Context := [("k", nested 125)]

theorem deepContext_of (P : Binary64 → Prop) : deepContext.Of P := nested_of P 126

theorem not_shallow_deepContext : ¬deepContext.Shallow := by decide +kernel

theorem read_deepContext : Json.read deepContext.toJson.compact = .ok deepContext.toJson ∧
    Context.ofJson? deepContext.toJson = some deepContext := by
  constructor
  · have read := Json.read_compact (Context.stable_toJson (deepContext_of Binary64.Legible))
    rwa [if_pos (by decide +kernel)] at read
  · rw [Context.ofJson?_toJson (deepContext_of Binary64.Legible),
      Context.unsigned_of_exact (deepContext_of Binary64.Exact)]

/-- A number that is not written as it was read. -/
def tinyText : String := "\x7b\"x\":1e-24\x7d"

def tinyContext : Context :=
  match Json.read tinyText with
  | .ok json => (Context.ofJson? json).getD []
  | .error _ => []

def tinyHeader : ExecutionHeader := { header 0 with context := tinyContext }

/-- Is a header with an empty log read back with another context than this one? -/
def misread (header : ExecutionHeader) (context : Context) : Bool :=
  match Json.readChars ((StoredHeader.toJson ⟨header, 0⟩).prettyChars 0) with
  | .ok json =>
    match StoredHeader.decode json with
    | .ok back => back.logBytes == 0 &&
        !(Value.object back.header.context).equal (.object context)
    | .error _ => false
  | .error _ => false

theorem decode_of_misread {header : ExecutionHeader} {context : Context}
    (read : misread header context = true) :
    ∃ back, Bytes.decode StoredHeader.decode (StoredHeader.encode ⟨header, 0⟩) = .ok ⟨back, 0⟩ ∧
      (Value.object back.context).equal (.object context) = false := by
  unfold misread at read
  cases text : Json.readChars ((StoredHeader.toJson ⟨header, 0⟩).prettyChars 0) with
  | error cause => simp [text] at read
  | ok json =>
    cases decoded : StoredHeader.decode json with
    | error cause => simp [text, decoded] at read
    | ok stored =>
      simp only [text, decoded, Bool.and_eq_true, beq_iff_eq, Bool.not_eq_true'] at read
      obtain ⟨bytes, other⟩ := read
      refine ⟨stored.header, ?_, other⟩
      rw [decode_of_readChars text decoded, ← bytes]

/-- What is read for the number is a neighbour. -/
theorem misread_tiny : misread tinyHeader tinyContext = true := by decide +kernel

end Sample

end FileStore

end WorkflowEngine
