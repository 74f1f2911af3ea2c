import Mathlib.Data.List.Forall2
import WorkflowEngine.Proofs.Execution.Recast
import WorkflowEngine.Proofs.Session.ReadBack

/-!
# Records that are written and read again

Headers, checkpoints, records and the headers in files come back from their JSON equal in every field,
also with the parts left out that say nothing. Their texts are read where they are nested no deeper than
a text may be; a deeper one is written all the same.
-/
namespace WorkflowEngine

/-- Equal in every field. -/
structure Checkpoint.Equals (c other : Checkpoint) : Prop where
  fields : other = { c with context := other.context }
  context : (Value.object c.context).equal (.object other.context) = true

/-- Equal in every field. -/
structure ExecutionHeader.Equals (h other : ExecutionHeader) : Prop where
  fields : other = { h with context := other.context }
  context : (Value.object h.context).equal (.object other.context) = true

namespace ExecutionRecord

/-- Equal in every field. -/
structure Equals (r other : ExecutionRecord) : Prop where
  header : r.header.Equals other.header
  checkpoints : List.Forall₂ Checkpoint.Equals r.checkpoints other.checkpoints

/-- A header and checkpoints that hold what there is room for, and contexts whose numbers have a
property. -/
structure Of (P : Binary64 → Prop) (r : ExecutionRecord) : Prop where
  header : r.header.Of P
  checkpoints : ∀ c ∈ r.checkpoints, c.Of P

theorem Of.mono {P Q : Binary64 → Prop} {r : ExecutionRecord} (imp : ∀ x, P x → Q x) (of : r.Of P) :
    r.Of Q :=
  ⟨of.header.mono imp, fun c mem => (of.checkpoints c mem).mono imp⟩

variable {r : ExecutionRecord}

theorem distinct_parts (r : ExecutionRecord) : Json.Parts.Distinct
    (r.header.entries ++ [("checkpoints", .array (r.checkpoints.map Checkpoint.toJson))]) := by
  simp [Json.Parts.Distinct, ExecutionHeader.entries]

theorem decode_toJson (legible : r.Of Binary64.Legible) : decode r.toJson = .ok r.unsigned := by
  have header := ExecutionHeader.ofParts_entries legible.header r.distinct_parts true
  have checkpoints := Json.Parts.required_of_mem r.distinct_parts
    (List.mem_append_right _ (List.mem_singleton.mpr rfl)) 12 (Json.Decode.listOf Checkpoint.decode)
  have each := Json.Decode.listOf_map fun c mem => Checkpoint.decode_toJson (legible.checkpoints c mem)
  have parts : Json.Parts.ofObject r.toJson = .ok (.named (r.header.entries ++
      [("checkpoints", .array (r.checkpoints.map Checkpoint.toJson))])) := rfl
  simp only [decode, parts, bind, Except.bind, header, checkpoints, each]
  rfl

theorem stable_toJson (legible : r.Of Binary64.Legible) : r.toJson.Stable := by
  apply Json.Stable.object
  intro part mem
  rcases List.mem_append.mp mem with mem | mem
  · exact ExecutionHeader.stable_entries legible.header part mem
  · rw [List.mem_singleton.mp mem]
    exact .array (List.forall_mem_map.mpr fun c mem =>
      Checkpoint.stable_toJson (legible.checkpoints c mem))

end ExecutionRecord

namespace StoredHeader

def format : Json.Format := ExecutionHeader.formatWith ["log_bytes"] fun _ _ => False

/-- Equal in every field. -/
structure Equals (stored other : StoredHeader) : Prop where
  header : stored.header.Equals other.header
  logBytes : other.logBytes = stored.logBytes

theorem decode_of_recasts {stored : StoredHeader} {json other : Json}
    (recasts : format.Recasts json other) (reads : decode json = .ok stored) :
    decode other = .ok stored := by
  obtain ⟨alters⟩ := recasts
  obtain ⟨parts, whole, reads⟩ := ok_of_bind reads
  cases whole
  obtain ⟨header, isHeader, reads⟩ := ok_of_bind reads
  obtain ⟨logBytes, isLength, reads⟩ := ok_of_bind reads
  have apart : ∀ name ∈ ExecutionHeader.names, name ∉ ["log_bytes"] := by
    simp [ExecutionHeader.names]
  have length : format.Suits ["log_bytes"] none (Json.Decode.natBelow UInt64.size) := by
    refine .plain ?_ ?_ ?_
    · simp [format, ExecutionHeader.formatWith]
    · simp [format, ExecutionHeader.formatWith]
    · rintro part other (⟨first, second, -⟩ | ⟨-, -, none⟩)
      · simp [first, second]
      · exact none.elim
  simp only [decode, Json.Parts.ofObject, bind, Except.bind,
    ExecutionHeader.ofParts_of_alters apart alters isHeader, alters.required length isLength]
  exact reads

end StoredHeader

section

variable {h : ExecutionHeader} {c : Checkpoint} {r : ExecutionRecord} {stored : StoredHeader}

theorem ExecutionHeader.equals_unsigned (legible : h.Of Binary64.Legible) : h.Equals h.unsigned :=
  ⟨rfl, Context.equal_unsigned legible.context⟩

theorem Checkpoint.equals_unsigned (legible : c.Of Binary64.Legible) : c.Equals c.unsigned :=
  ⟨rfl, Context.equal_unsigned legible.context⟩

theorem ExecutionRecord.equals_unsigned (legible : r.Of Binary64.Legible) : r.Equals r.unsigned := by
  refine ⟨ExecutionHeader.equals_unsigned legible.header, ?_⟩
  refine List.forall₂_map_right_iff.mpr (List.forall₂_same.mpr fun c mem => ?_)
  exact Checkpoint.equals_unsigned (legible.checkpoints c mem)

theorem ExecutionHeader.decode_toJson (legible : h.Of Binary64.Legible) :
    decode h.toJson = .ok h.unsigned := by
  have distinct : Json.Parts.Distinct (h.entries ++ []) := by
    simp [Json.Parts.Distinct, entries]
  have reads := ofParts_entries legible distinct false
  have parts : Json.Parts.of 12 h.toJson = .ok (.named h.entries) := rfl
  rw [List.append_nil] at reads
  simp only [decode, parts, bind, Except.bind, reads]

theorem ExecutionHeader.stable_toJson (legible : h.Of Binary64.Legible) : h.toJson.Stable :=
  .object (stable_entries legible)

/-- A checkpoint whose context takes all the levels of a text is not read from its own. -/
theorem Checkpoint.decodeText_of_deep (legible : c.Of Binary64.Legible)
    (deep : ¬c.context.Shallow) :
    Json.decodeText decode c.toJson.compact = .error (.text .tooDeep) := by
  have written := Json.decodeText_written (stable_toJson legible) (decode_toJson legible) _
    List.mem_cons_self
  rw [depth_toJson] at written
  exact written.trans (if_neg fun shallow => deep (Nat.lt_of_succ_le shallow))

end

/-- A record of any kind, with whole numbers in its contexts, comes back equal in every field from its
JSON and from every text of it, also with unknown fields, with keys in another order, without an absent
error, and without the empty continuation of a checkpoint. What it is written as is such a text unless
it is nested too deep: then it is refused. -/
theorem records_reread (h : ExecutionHeader) (c : Checkpoint) (r : ExecutionRecord)
    (stored : StoredHeader) :
    (h.Of Binary64.Whole →
      ExecutionHeader.format.Returns ExecutionHeader.toJson ExecutionHeader.decode
        ExecutionHeader.Equals h h.unsigned) ∧
    (c.Of Binary64.Whole →
      Checkpoint.format.Returns Checkpoint.toJson Checkpoint.decode Checkpoint.Equals c c.unsigned) ∧
    (r.Of Binary64.Whole →
      ExecutionRecord.format.Returns ExecutionRecord.toJson ExecutionRecord.decode
        ExecutionRecord.Equals r r.unsigned) ∧
    (stored.header.Of Binary64.Whole → stored.logBytes < UInt64.size →
      StoredHeader.format.Returns StoredHeader.toJson StoredHeader.decode StoredHeader.Equals
        stored stored.unsigned) := by
  have imp (x : Binary64) : x.Whole → x.Legible := Binary64.Whole.legible
  refine ⟨fun whole => ?_, fun whole => ?_, fun whole => ?_, fun whole small => ?_⟩
  · have legible := whole.mono imp
    exact .of_recasts (ExecutionHeader.equals_unsigned legible) (ExecutionHeader.stable_toJson legible)
      (ExecutionHeader.decode_toJson legible) fun _ _ _ => ExecutionHeader.decode_of_recasts
  · have legible := whole.mono imp
    exact .of_recasts (Checkpoint.equals_unsigned legible) (Checkpoint.stable_toJson legible)
      (Checkpoint.decode_toJson legible) fun _ _ _ => Checkpoint.decode_of_recasts
  · have legible := whole.mono imp
    exact .of_recasts (ExecutionRecord.equals_unsigned legible) (ExecutionRecord.stable_toJson legible)
      (ExecutionRecord.decode_toJson legible) fun _ _ _ => ExecutionRecord.decode_of_recasts
  · have legible := whole.mono imp
    exact .of_recasts ⟨ExecutionHeader.equals_unsigned legible, rfl⟩
      (StoredHeader.stable_toJson legible small) (StoredHeader.decode_toJson legible small)
      fun _ _ _ => StoredHeader.decode_of_recasts

namespace FileStore.Sample

theorem checkpoint_of {P : Binary64 → Prop} {of : Context} (property : of.Of P) (name : String) :
    ({ checkpoint name with context := of } : Checkpoint).Of P :=
  ⟨show 0 < UInt64.size by decide, show 1 < UInt32.size by decide,
    show moment.isValid = true by decide, property⟩

theorem exact_context : context.Of Binary64.Exact := by
  have one : (Binary64.ofInt 1).Whole := ⟨1, by decide, by decide⟩
  refine .object (by simp [Fields.Sorted, context]) ?_
  simpa [context] using .number ⟨one.legible, by decide⟩

/-- A checkpoint without its empty continuation. -/
def shortCheckpoint : Json := .object ((checkpoint "a").entries.eraseIdx 6)

/-- The parts of a header without its absent error. -/
def shortEntries : List (String × Json) := (header 0).entries.eraseIdx 7

theorem recasts_checkpoint : Checkpoint.format.Recasts (checkpoint "a").toJson shortCheckpoint :=
  .object (@Json.Format.Alters.drop _ [_, _, _, _, _, _] [_] "pending" _ (Or.inl ⟨rfl, rfl⟩))

theorem alters_header (beside : List String) (changes : Json → Json → Prop)
    (others : List (String × Json)) :
    (ExecutionHeader.formatWith beside changes).Alters ((header 0).entries ++ others)
      (shortEntries ++ others) :=
  @Json.Format.Alters.drop _ [_, _, _, _, _, _, _] (_ :: _ :: _ :: _ :: others) "error" _ ⟨rfl, rfl⟩

theorem recasts_record : Relation.ReflTransGen ExecutionRecord.format.Recasts
    (ExecutionRecord.mk (header 0) [checkpoint "a"]).toJson
    (.object (shortEntries ++ [("checkpoints", .array [shortCheckpoint])])) := by
  have error := alters_header ["checkpoints"] (Json.OneOf Checkpoint.format.Recasts)
    [("checkpoints", .array [(checkpoint "a").toJson])]
  have one : Json.OneOf Checkpoint.format.Recasts (.array [(checkpoint "a").toJson])
      (.array [shortCheckpoint]) :=
    @Json.OneOf.item _ [] [] _ _ recasts_checkpoint
  have pending : ExecutionRecord.format.Alters
      (shortEntries ++ [("checkpoints", .array [(checkpoint "a").toJson])])
      (shortEntries ++ [("checkpoints", .array [shortCheckpoint])]) :=
    .turn (Or.inr ⟨List.mem_singleton.mpr rfl, rfl, one⟩)
  exact .tail (.single (.object error)) (.object pending)

/-- A checkpoint of a context that was read from a text as deep as texts may be. -/
def deepCheckpoint : Checkpoint := { checkpoint "a" with context := deepContext }

end FileStore.Sample

section

open FileStore.Sample

/-- Records of all kinds are read from the texts they are written as, and without what they may leave
out. -/
theorem records_reread_of_shortened :
    (∀ text ∈ [(checkpoint "a").toJson.compact, (checkpoint "a").toJson.pretty],
      Json.decodeText Checkpoint.decode text = .ok (checkpoint "a")) ∧
    Checkpoint.decode shortCheckpoint = .ok (checkpoint "a") ∧
    ExecutionHeader.decode (.object shortEntries) = .ok (header 0) ∧
    ExecutionRecord.decode (.object (shortEntries ++ [("checkpoints", .array [shortCheckpoint])])) =
      .ok ⟨header 0, [checkpoint "a"]⟩ ∧
    StoredHeader.decode (.object (shortEntries ++ [("log_bytes", .nat 5)])) = .ok ⟨header 0, 5⟩ := by
  have wholeCheckpoint : (checkpoint "a").Of Binary64.Whole := checkpoint_of whole_context "a"
  have wholeHeader : (header 0).Of Binary64.Whole := whole_header (by decide)
  have sameCheckpoint : (checkpoint "a").unsigned = checkpoint "a" :=
    Checkpoint.unsigned_of_exact (checkpoint_of exact_context "a")
  have sameHeader : (header 0).unsigned = header 0 := by
    rw [ExecutionHeader.unsigned, show (header 0).context.unsigned = context from
      Context.unsigned_of_exact exact_context]
    rfl
  obtain ⟨ofHeader, ofCheckpoint, ofRecord, ofStored⟩ :=
    records_reread (header 0) (checkpoint "a") ⟨header 0, [checkpoint "a"]⟩ ⟨header 0, 5⟩
  have ofCheckpoint := ofCheckpoint wholeCheckpoint
  have ofHeader := ofHeader wholeHeader
  have ofRecord := ofRecord ⟨wholeHeader, List.forall_mem_singleton.mpr wholeCheckpoint⟩
  have ofStored := ofStored wholeHeader (by decide)
  simp only [ExecutionRecord.unsigned, StoredHeader.unsigned, List.map_cons, List.map_nil,
    sameHeader, sameCheckpoint] at ofCheckpoint ofHeader ofRecord ofStored
  have short := alters_header [] (fun _ _ => False) []
  rw [List.append_nil, List.append_nil] at short
  refine ⟨fun text mem => (ofCheckpoint.written text mem).trans (if_pos (by decide)),
    (ofCheckpoint.keeps _ (.single recasts_checkpoint)).1, (ofHeader.keeps _ (.single (.object short))).1,
    (ofRecord.keeps _ recasts_record).1, ?_⟩
  exact (ofStored.keeps _ (.single (.object (alters_header _ _ [("log_bytes", .nat 5)])))).1

/-- A checkpoint is written that no text gives back, though its context came from a text. -/
theorem deep_checkpoint_refused :
    Json.read deepContext.toJson.compact = .ok deepContext.toJson ∧
    deepCheckpoint.Of Binary64.Whole ∧
    Checkpoint.decode deepCheckpoint.toJson = .ok deepCheckpoint ∧
    Json.decodeText Checkpoint.decode deepCheckpoint.toJson.compact = .error (.text .tooDeep) := by
  have legible : deepCheckpoint.Of Binary64.Legible := checkpoint_of (deepContext_of _) "a"
  have exact : deepCheckpoint.unsigned = deepCheckpoint :=
    Checkpoint.unsigned_of_exact (checkpoint_of (deepContext_of _) "a")
  have reads := exact ▸ Checkpoint.decode_toJson legible
  exact ⟨read_deepContext.1, checkpoint_of (deepContext_of _) "a", reads,
    Checkpoint.decodeText_of_deep legible not_shallow_deepContext⟩

end

end WorkflowEngine
