import WorkflowEngine.Proofs.Execution.Codec
import WorkflowEngine.Proofs.Json.Recast
import WorkflowEngine.Proofs.Json.Reorder

/-!
# Other ways to write a record

A header and a checkpoint may be written without an absent error, and a checkpoint without an empty
continuation. They may have unknown fields, and their keys and those of their contexts may be in any
order. The same holds of what has a header's fields beside its own.
-/
namespace WorkflowEngine

namespace Context

/-- The keys of objects in a context come in another order. -/
def Turns (part other : String × Json) : Prop :=
  part.1 = "context" ∧ other.1 = "context" ∧ part.2.Reorders other.2

theorem decode_of_turns {part other : String × Json} {context : Context} (turns : Turns part other)
    (reads : decode part.2 = .ok context) : decode other.2 = .ok context :=
  (decode_of_reorders turns.2.2).symm.trans reads

end Context

namespace Checkpoint

def format : Json.Format where
  known := ["id", "sequence", "nodeId", "nodeName", "stepNumber", "context", "pending", "timestamp",
    "error"]
  spare name json := name = "pending" ∧ json = .array [] ∨ name = "error" ∧ json = .null
  turns := Context.Turns

variable {α : Type} {name : String} {item : Json.Decode α} {c : Checkpoint} {json other : Json}

theorem fixed (apart : name ≠ "context") :
    ∀ part other, format.turns part other → part.1 ≠ name ∧ other.1 ≠ name := by
  rintro part other ⟨first, second, -⟩
  rw [first, second, and_self]
  exact apart.symm

theorem suits_plain (known : name ∈ format.known) (own : name ∉ ["context", "pending", "error"]) :
    format.Suits [name] none item := by
  simp only [List.mem_cons, List.not_mem_nil, or_false, not_or] at own
  exact .plain known (by simp [format, own]) (fixed own.1)

theorem suits_context : format.Suits ["context"] none Context.decode := by
  refine .single (by simp [format]) (by simp [format]) fun part other turns => ?_
  rw [turns.1, turns.2.1]
  exact ⟨Iff.rfl, fun _ _ reads => Context.decode_of_turns turns reads⟩

theorem decode_of_recasts (recasts : format.Recasts json other) (reads : decode json = .ok c) :
    decode other = .ok c := by
  obtain ⟨alters⟩ := recasts
  obtain ⟨parts, whole, reads⟩ := ok_of_bind reads
  cases whole
  obtain ⟨id, isId, reads⟩ := ok_of_bind reads
  obtain ⟨sequence, isSequence, reads⟩ := ok_of_bind reads
  obtain ⟨nodeId, isNodeId, reads⟩ := ok_of_bind reads
  obtain ⟨nodeName, isNodeName, reads⟩ := ok_of_bind reads
  obtain ⟨stepNumber, isStepNumber, reads⟩ := ok_of_bind reads
  obtain ⟨context, isContext, reads⟩ := ok_of_bind reads
  obtain ⟨pending, isPending, reads⟩ := ok_of_bind reads
  obtain ⟨timestamp, isTimestamp, reads⟩ := ok_of_bind reads
  obtain ⟨error, isError, reads⟩ := ok_of_bind reads
  have continuation : format.Suits ["pending"] (some []) (Json.Decode.listOf Json.Decode.string) := by
    refine .implied ?_ ?_ (fixed ?_) <;> simp [format, Json.Decode.listOf, pure, Except.pure]
  have failure : format.Suits ["error"] (some none) (Json.Decode.nullable Json.Decode.string) := by
    refine .implied ?_ ?_ (fixed ?_) <;> simp [format, Json.Decode.nullable]
  simp only [decode, Json.Parts.of, bind, Except.bind,
    alters.required (suits_plain (by simp [format]) (by simp)) isId,
    alters.required (suits_plain (by simp [format]) (by simp)) isSequence,
    alters.required (suits_plain (by simp [format]) (by simp)) isNodeId,
    alters.required (suits_plain (by simp [format]) (by simp)) isNodeName,
    alters.required (suits_plain (by simp [format]) (by simp)) isStepNumber,
    alters.required suits_context isContext, alters.withDefault continuation isPending,
    alters.required (suits_plain (by simp [format]) (by simp)) isTimestamp,
    alters.optional failure isError]
  exact reads

end Checkpoint

namespace ExecutionHeader

/-- The names of a header's own parts. -/
def names : List String := ["id", "workflowId", "userId", "status", "context", "currentStep",
  "totalSteps", "error", "version", "checkpointCount", "createdAt", "updatedAt"]

/-- A header with other parts beside its own, which may be written otherwise. -/
def formatWith (beside : List String) (changes : Json → Json → Prop) : Json.Format where
  known := names ++ beside
  spare name json := name = "error" ∧ json = .null
  turns part other := Context.Turns part other ∨
    part.1 ∈ beside ∧ other.1 = part.1 ∧ changes part.2 other.2

/-- A header by itself. -/
def format : Json.Format := formatWith [] fun _ _ => False

variable {α : Type} {beside : List String} {changes : Json → Json → Prop} {name : String}
  {item : Json.Decode α} {h : ExecutionHeader} {entries others : List (String × Json)}

theorem fixed (apart : name ≠ "context") (own : name ∉ beside) :
    ∀ part other, (formatWith beside changes).turns part other → part.1 ≠ name ∧ other.1 ≠ name := by
  rintro part other (⟨first, second, -⟩ | ⟨mem, same, -⟩)
  · rw [first, second, and_self]
    exact apart.symm
  · have first := ne_of_mem_of_not_mem mem own
    exact ⟨first, same ▸ first⟩

/-- A header is read from its parts, whatever is beside them and however that is changed. -/
theorem ofParts_of_alters (apart : ∀ name ∈ names, name ∉ beside) {heldBack : Bool}
    (alters : (formatWith beside changes).Alters entries others)
    (reads : ofParts heldBack (.named entries) = .ok h) : ofParts heldBack (.named others) = .ok h := by
  obtain ⟨id, isId, reads⟩ := ok_of_bind reads
  obtain ⟨workflowId, isWorkflowId, reads⟩ := ok_of_bind reads
  obtain ⟨userId, isUserId, reads⟩ := ok_of_bind reads
  obtain ⟨status, isStatus, reads⟩ := ok_of_bind reads
  obtain ⟨context, isContext, reads⟩ := ok_of_bind reads
  obtain ⟨currentStep, isCurrentStep, reads⟩ := ok_of_bind reads
  obtain ⟨totalSteps, isTotalSteps, reads⟩ := ok_of_bind reads
  obtain ⟨error, isError, reads⟩ := ok_of_bind reads
  obtain ⟨version, isVersion, reads⟩ := ok_of_bind reads
  obtain ⟨checkpointCount, isCheckpointCount, reads⟩ := ok_of_bind reads
  obtain ⟨createdAt, isCreatedAt, reads⟩ := ok_of_bind reads
  obtain ⟨updatedAt, isUpdatedAt, reads⟩ := ok_of_bind reads
  have plain {α : Type} {item : Json.Decode α} {name : String} (own : name ∈ names)
      (other : name ∉ ["context", "error"]) : (formatWith beside changes).Suits [name] none item := by
    simp only [List.mem_cons, List.not_mem_nil, or_false, not_or] at other
    exact .plain (List.mem_append_left _ own) (by simp [formatWith, other])
      (fixed other.1 (apart name own))
  have contexts : (formatWith beside changes).Suits ["context"] none Context.decode := by
    refine .single (by simp [formatWith, names]) (by simp [formatWith]) ?_
    rintro part other (turns | ⟨mem, same, -⟩)
    · rw [turns.1, turns.2.1]
      exact ⟨Iff.rfl, fun _ _ reads => Context.decode_of_turns turns reads⟩
    · have first : part.1 ≠ "context" := ne_of_mem_of_not_mem mem (apart _ (by simp [names]))
      simp [same, first]
  have failure : (formatWith beside changes).Suits ["error"] (some none)
      (Json.Decode.nullable Json.Decode.string) := by
    refine .implied (by simp [formatWith, names]) ?_ (fixed (by simp) (apart _ (by simp [names])))
    simp [formatWith, Json.Decode.nullable]
  simp only [ofParts, bind, Except.bind, alters.required contexts isContext,
    alters.optional failure isError, alters.required (plain (by simp [names]) (by simp)) isId,
    alters.required (plain (by simp [names]) (by simp)) isWorkflowId,
    alters.required (plain (by simp [names]) (by simp)) isUserId,
    alters.required (plain (by simp [names]) (by simp)) isStatus,
    alters.required (plain (by simp [names]) (by simp)) isCurrentStep,
    alters.required (plain (by simp [names]) (by simp)) isTotalSteps,
    alters.required (plain (by simp [names]) (by simp)) isVersion,
    alters.required (plain (by simp [names]) (by simp)) isCheckpointCount,
    alters.required (plain (by simp [names]) (by simp)) isCreatedAt,
    alters.required (plain (by simp [names]) (by simp)) isUpdatedAt]
  exact reads

theorem decode_of_recasts {json other : Json} (recasts : format.Recasts json other)
    (reads : decode json = .ok h) : decode other = .ok h := by
  obtain ⟨alters⟩ := recasts
  exact ofParts_of_alters (fun _ _ => List.not_mem_nil) alters reads

end ExecutionHeader

namespace ExecutionRecord

/-- A checkpoint may be written otherwise. -/
def format : Json.Format :=
  ExecutionHeader.formatWith ["checkpoints"] (Json.OneOf Checkpoint.format.Recasts)

theorem suits_checkpoints :
    format.Suits ["checkpoints"] none (Json.Decode.listOf Checkpoint.decode) := by
  refine .single (by simp [format, ExecutionHeader.formatWith]) ?_ ?_
  · simp [format, ExecutionHeader.formatWith]
  · rintro part other (⟨first, second, -⟩ | ⟨-, same, one⟩)
    · simp [first, second]
    · refine ⟨by rw [same], fun _ checkpoints reads => ?_⟩
      refine Json.Decode.listOf_of_oneOf ?_ one reads
      exact fun _ _ _ => Checkpoint.decode_of_recasts

theorem decode_of_recasts {r : ExecutionRecord} {json other : Json} (recasts : format.Recasts json other)
    (reads : decode json = .ok r) : decode other = .ok r := by
  obtain ⟨alters⟩ := recasts
  obtain ⟨parts, whole, reads⟩ := ok_of_bind reads
  cases whole
  obtain ⟨header, isHeader, reads⟩ := ok_of_bind reads
  obtain ⟨checkpoints, areCheckpoints, reads⟩ := ok_of_bind reads
  have apart : ∀ name ∈ ExecutionHeader.names, name ∉ ["checkpoints"] := by
    simp [ExecutionHeader.names]
  simp only [decode, Json.Parts.ofObject, bind, Except.bind,
    ExecutionHeader.ofParts_of_alters apart alters isHeader,
    alters.required suits_checkpoints areCheckpoints]
  exact reads

end ExecutionRecord

end WorkflowEngine
