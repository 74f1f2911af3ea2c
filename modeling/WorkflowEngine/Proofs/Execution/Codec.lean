import WorkflowEngine.Execution.Codec
import WorkflowEngine.Proofs.Json.Parts
import WorkflowEngine.Proofs.Timestamp
import WorkflowEngine.Proofs.Uuid
import WorkflowEngine.Proofs.Value.Json

/-!
# Records and their JSON

A header or a checkpoint whose fields hold what their written form has room for comes back from its
JSON, but for the signs of zeros in its context. Its tree is one level deeper than its context.
-/
namespace WorkflowEngine

namespace Json

theorem stable_nat {n : Nat} (small : n < UInt64.size) : (Json.nat n).Stable := by
  have size : UInt64.size = 2 ^ 64 := rfl
  exact .number (Number.stable_integer (by omega) (by omega))

theorem stable_optional {α : Type} {write : α → Json} {part : Option α}
    (each : ∀ a ∈ part, (write a).Stable) : (Json.optional write part).Stable := by
  cases part with
  | none => exact .null
  | some a => exact each a rfl

theorem stable_optionalText (part : Option String) : (Json.optional .string part).Stable :=
  stable_optional fun text _ => .string text

theorem stable_strings (items : List String) : (strings items).Stable :=
  .array (List.forall_mem_map.mpr fun s _ => .string s)

theorem depth_strings (items : List String) : (strings items).depth = 1 := by
  have flat : depthItems (items.map .string) = 0 := by
    induction items with
    | nil => rfl
    | cons s items ih => simp [depthItems, depth, ih]
  simp [strings, depth, flat]

end Json

namespace Context

/-- How deep a context is nested, itself included. -/
def depth (context : Context) : Nat := (toJson context).depth

theorem depth_toJson (context : Context) : (toJson context).depth = context.depth := rfl

theorem decode_toJson {context : Context} (legible : context.Of Binary64.Legible) :
    decode (toJson context) = .ok context.unsigned := by
  simp [decode, ofJson?_toJson legible]

end Context

namespace Checkpoint

/-- Numbers within the width of their fields, a moment of the calendar, and a context whose numbers
have a property. -/
structure Of (P : Binary64 → Prop) (c : Checkpoint) : Prop where
  sequence : c.sequence < UInt64.size
  stepNumber : c.stepNumber < UInt32.size
  timestamp : c.timestamp.isValid = true
  context : c.context.Of P

instance {P : Binary64 → Prop} [DecidablePred P] (c : Checkpoint) : Decidable (c.Of P) :=
  decidable_of_iff (c.sequence < UInt64.size ∧ c.stepNumber < UInt32.size ∧
      c.timestamp.isValid = true ∧ c.context.Of P)
    ⟨fun ⟨sequence, stepNumber, timestamp, context⟩ => ⟨sequence, stepNumber, timestamp, context⟩,
      fun of => ⟨of.sequence, of.stepNumber, of.timestamp, of.context⟩⟩

theorem Of.mono {P Q : Binary64 → Prop} {c : Checkpoint} (imp : ∀ x, P x → Q x) (of : c.Of P) : c.Of Q :=
  { of with context := Value.Of.mono imp of.context }

/-- The checkpoint with the signs of its zeros taken off. -/
def unsigned (c : Checkpoint) : Checkpoint := { c with context := c.context.unsigned }

@[simp] theorem unsigned_unsigned (c : Checkpoint) : c.unsigned.unsigned = c.unsigned := by
  simp [unsigned]

theorem unsigned_of_exact {c : Checkpoint} (exact : c.Of Binary64.Exact) : c.unsigned = c := by
  rw [unsigned, Context.unsigned_of_exact exact.context]

/-- The parts a checkpoint is written in. -/
def entries (c : Checkpoint) : List (String × Json) := c.toJson.entries

theorem distinct_entries (c : Checkpoint) : Json.Parts.Distinct c.entries := by
  cases error : c.error <;> simp [entries, toJson, Json.entries, Json.Parts.Distinct, error]

variable {c : Checkpoint}

theorem error_of_entries (c : Checkpoint) :
    (Json.Parts.named c.entries).optional 8 "error" Json.Decode.string = .ok c.error := by
  cases error : c.error with
  | none =>
    exact Json.Parts.optional_of_not_mem (by simp [entries, toJson, Json.entries, error]) 8 _
  | some text =>
    have mem : ("error", .string text) ∈ c.entries := by simp [entries, toJson, Json.entries, error]
    rw [Json.Parts.optional_of_mem c.distinct_entries mem]
    rfl

theorem decode_toJson (legible : c.Of Binary64.Legible) : decode c.toJson = .ok c.unsigned := by
  have required {α : Type} {name : String} {json : Json} (place : Nat) (item : Json.Decode α)
      (mem : (name, json) ∈ c.entries) :
      (Json.Parts.named c.entries).required place name item = item json :=
    Json.Parts.required_of_mem c.distinct_entries mem place item
  have unfolded : c.entries = c.toJson.entries := rfl
  have id := required 0 Uuid.decode (show ("id", c.id.toJson) ∈ c.entries by
    simp [unfolded, toJson, Json.entries])
  have sequence := required 1 (Json.Decode.natBelow UInt64.size)
    (show ("sequence", .nat c.sequence) ∈ c.entries by simp [unfolded, toJson, Json.entries])
  have nodeId := required 2 Json.Decode.string (show ("nodeId", .string c.nodeId) ∈ c.entries by
    simp [unfolded, toJson, Json.entries])
  have nodeName := required 3 Json.Decode.string
    (show ("nodeName", .string c.nodeName) ∈ c.entries by simp [unfolded, toJson, Json.entries])
  have stepNumber := required 4 (Json.Decode.natBelow UInt32.size)
    (show ("stepNumber", .nat c.stepNumber) ∈ c.entries by simp [unfolded, toJson, Json.entries])
  have context := required 5 Context.decode
    (show ("context", Context.toJson c.context) ∈ c.entries by
      simp [unfolded, toJson, Json.entries])
  have pending := Json.Parts.withDefault_of_mem c.distinct_entries
    (show ("pending", .strings c.pending) ∈ c.entries by simp [unfolded, toJson, Json.entries]) 6 []
    (Json.Decode.listOf Json.Decode.string)
  have timestamp := required 7 Timestamp.decode
    (show ("timestamp", c.timestamp.toJson) ∈ c.entries by
      simp [unfolded, toJson, Json.entries])
  have parts : Json.Parts.of 9 c.toJson = .ok (.named c.entries) := rfl
  simp only [decode, parts, bind, Except.bind, id, sequence, nodeId, nodeName, stepNumber, context,
    pending, timestamp, error_of_entries, Uuid.decode_toJson, Json.Decode.natBelow_nat legible.sequence,
    Json.Decode.natBelow_nat legible.stepNumber, Json.Decode.listOf_strings,
    Timestamp.decode_toJson legible.timestamp, Context.decode_toJson legible.context]
  rfl

theorem stable_toJson (legible : c.Of Binary64.Legible) : c.toJson.Stable := by
  have sequence := Json.stable_nat legible.sequence
  have stepNumber := Json.stable_nat (legible.stepNumber.trans (by decide))
  have context := Context.stable_toJson legible.context
  apply Json.Stable.object
  cases c.error <;>
    simp [sequence, stepNumber, context, Json.stable_strings, Uuid.toJson, Timestamp.toJson,
      Json.Stable.string]

theorem depth_toJson (c : Checkpoint) : c.toJson.depth = c.context.depth + 1 := by
  have some : 0 < c.context.depth := Nat.succ_pos _
  cases error : c.error <;>
    simp [toJson, error, Json.depth, Json.depthEntries, Json.depth_strings, Json.nat, Uuid.toJson,
      Timestamp.toJson, Context.depth_toJson] <;> omega

end Checkpoint

namespace ExecutionHeader

/-- Numbers within the width of their fields, moments of the calendar, and a context whose numbers
have a property. -/
structure Of (P : Binary64 → Prop) (h : ExecutionHeader) : Prop where
  currentStep : h.currentStep < UInt32.size
  totalSteps : h.totalSteps < UInt32.size
  version : h.version < UInt64.size
  checkpointCount : h.checkpointCount < UInt64.size
  createdAt : h.createdAt.isValid = true
  updatedAt : h.updatedAt.isValid = true
  context : h.context.Of P

instance {P : Binary64 → Prop} [DecidablePred P] (h : ExecutionHeader) : Decidable (h.Of P) :=
  decidable_of_iff (h.currentStep < UInt32.size ∧ h.totalSteps < UInt32.size ∧
      h.version < UInt64.size ∧ h.checkpointCount < UInt64.size ∧
      h.createdAt.isValid = true ∧ h.updatedAt.isValid = true ∧ h.context.Of P)
    ⟨fun ⟨currentStep, totalSteps, version, count, createdAt, updatedAt, context⟩ =>
        ⟨currentStep, totalSteps, version, count, createdAt, updatedAt, context⟩,
      fun of => ⟨of.currentStep, of.totalSteps, of.version, of.checkpointCount, of.createdAt,
        of.updatedAt, of.context⟩⟩

theorem Of.mono {P Q : Binary64 → Prop} {h : ExecutionHeader} (imp : ∀ x, P x → Q x) (of : h.Of P) :
    h.Of Q :=
  { of with context := Value.Of.mono imp of.context }

/-- The header with the signs of its zeros taken off. -/
def unsigned (h : ExecutionHeader) : ExecutionHeader := { h with context := h.context.unsigned }

@[simp] theorem unsigned_unsigned (h : ExecutionHeader) : h.unsigned.unsigned = h.unsigned := by
  simp [unsigned]

theorem unsigned_of_exact {h : ExecutionHeader} (exact : h.Of Binary64.Exact) : h.unsigned = h := by
  rw [unsigned, Context.unsigned_of_exact exact.context]

theorem decode_status (heldBack : Bool) (status : ExecutionStatus) :
    ExecutionStatus.decode heldBack status.toJson = .ok status := by
  cases status <;> rfl

variable {h : ExecutionHeader}

/-- A header comes back from a structure that holds other parts beside it. -/
theorem ofParts_entries (legible : h.Of Binary64.Legible) {others : List (String × Json)}
    (distinct : Json.Parts.Distinct (h.entries ++ others)) (heldBack : Bool) :
    ofParts heldBack (.named (h.entries ++ others)) = .ok h.unsigned := by
  have mem {part : String × Json} (there : part ∈ h.entries) : part ∈ h.entries ++ others :=
    List.mem_append_left others there
  have required {α : Type} {name : String} {json : Json} (place : Nat) (item : Json.Decode α)
      (there : (name, json) ∈ h.entries) :
      (Json.Parts.named (h.entries ++ others)).required place name item = item json :=
    Json.Parts.required_of_mem distinct (mem there) place item
  have id := required 0 Uuid.decode (show ("id", h.id.toJson) ∈ h.entries by simp [entries])
  have workflowId := required 1 Json.Decode.string
    (show ("workflowId", .string h.workflowId) ∈ h.entries by simp [entries])
  have userId := required 2 Json.Decode.string
    (show ("userId", .string h.userId) ∈ h.entries by simp [entries])
  have status := required 3 (ExecutionStatus.decode heldBack)
    (show ("status", h.status.toJson) ∈ h.entries by simp [entries])
  have context := required 4 Context.decode
    (show ("context", Context.toJson h.context) ∈ h.entries by simp [entries])
  have currentStep := required 5 (Json.Decode.natBelow UInt32.size)
    (show ("currentStep", .nat h.currentStep) ∈ h.entries by simp [entries])
  have totalSteps := required 6 (Json.Decode.natBelow UInt32.size)
    (show ("totalSteps", .nat h.totalSteps) ∈ h.entries by simp [entries])
  have error := Json.Parts.optional_of_mem distinct
    (mem (show ("error", .optional .string h.error) ∈ h.entries by simp [entries])) 7
    Json.Decode.string
  have version := required 8 (Json.Decode.natBelow UInt64.size)
    (show ("version", .nat h.version) ∈ h.entries by simp [entries])
  have checkpointCount := required 9 (Json.Decode.natBelow UInt64.size)
    (show ("checkpointCount", .nat h.checkpointCount) ∈ h.entries by simp [entries])
  have createdAt := required 10 Timestamp.decode
    (show ("createdAt", h.createdAt.toJson) ∈ h.entries by simp [entries])
  have updatedAt := required 11 Timestamp.decode
    (show ("updatedAt", h.updatedAt.toJson) ∈ h.entries by simp [entries])
  simp only [ofParts, bind, Except.bind, id, workflowId, userId, status, context, currentStep,
    totalSteps, error, version, checkpointCount, createdAt, updatedAt, Uuid.decode_toJson,
    decode_status, Context.decode_toJson legible.context, Json.Decode.natBelow_nat legible.currentStep,
    Json.Decode.natBelow_nat legible.totalSteps, Json.Decode.nullable_string,
    Json.Decode.natBelow_nat legible.version, Json.Decode.natBelow_nat legible.checkpointCount,
    Timestamp.decode_toJson legible.createdAt, Timestamp.decode_toJson legible.updatedAt]
  rfl

theorem stable_entries (legible : h.Of Binary64.Legible) : ∀ part ∈ h.entries, part.2.Stable := by
  have small {n : Nat} (small : n < UInt32.size) := Json.stable_nat (small.trans (by decide))
  have error := Json.stable_optionalText h.error
  simp [entries, Uuid.toJson, ExecutionStatus.toJson, Timestamp.toJson, Json.Stable.string, error,
    Context.stable_toJson legible.context, small legible.currentStep, small legible.totalSteps,
    Json.stable_nat legible.version, Json.stable_nat legible.checkpointCount]

theorem depth_entries (h : ExecutionHeader) : Json.depthEntries h.entries = h.context.depth := by
  have error : (Json.optional .string h.error).depth = 0 := by
    cases h.error <;> rfl
  simp [entries, Json.depth, Json.depthEntries, Json.nat, Uuid.toJson, ExecutionStatus.toJson,
    Timestamp.toJson, error, Context.depth_toJson]

end ExecutionHeader

end WorkflowEngine
