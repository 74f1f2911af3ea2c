import WorkflowEngine.Node.Codec
import WorkflowEngine.Node.Transform
import WorkflowEngine.Proofs.Node.Frame
import WorkflowEngine.Proofs.Value.Depth
import WorkflowEngine.Proofs.Value.Json

/-!
# Values as texts in a context

`transform.json_stringify` and then `transform.json_parse` give a value back, whatever keys they are told
to use and in either layout, as long as its text is not nested too deep to be read.
-/
namespace WorkflowEngine

namespace Transform

variable {ctx : NodeContext} {source target : String} {value : Value}

/-- A configuration names a key for a part of a call, or leaves that to the key that is assumed. -/
inductive Names (config : Context) (part assumed : String) : String → Prop
  | named {key : String} (given : config.get? part = some (.string key)) : Names config part assumed key
  | assumed (left : config.get? part = none) : Names config part assumed assumed

theorem configuredKey_of_names {part assumed key : String} (names : Names ctx.config part assumed key) :
    configuredKey ctx part assumed = .ok key := by
  cases names with
  | named given => simp only [configuredKey, given, Value.asString?]
  | assumed left => simp only [configuredKey, left]

/-- The keys that a call reads and sets. -/
structure Between (config : Context) (assumed : String × String) (source target : String) : Prop where
  source : Names config "source" assumed.1 source
  target : Names config "target" assumed.2 target

/-- The text that a call makes of a value, in the layout its configuration asks for. -/
def textOf (ctx : NodeContext) (value : Value) : String :=
  if ((ctx.config.get? "pretty").bind Value.asBool?).getD false then value.toJson.pretty
  else value.toJson.compact

theorem stringifyJson_eq (keys : Between ctx.config ("value", "json") source target)
    (holds : ctx.context.get? source = some value) :
    stringifyJson ctx = .ok (.proceed (ctx.context.insert target (.string (textOf ctx value)))) := by
  simp only [stringifyJson, configuredKey_of_names keys.source, configuredKey_of_names keys.target,
    NodeContext.requireInput, holds, bind, Except.bind,
    pure, Except.pure, textOf]

/-- What a call makes of a text is what is read of it. -/
theorem parseJson_eq (keys : Between ctx.config ("json", "parsed") source target) {text : String}
    (holds : ctx.context.get? source = some (.string text)) :
    parseJson ctx =
      match Json.read text with
      | .ok json => .ok (.proceed (ctx.context.insert target (.ofJson json)))
      | .error cause => .error (.executionFailed ("JSON parse error: " ++ cause.message)) := by
  simp only [parseJson, configuredKey_of_names keys.source, configuredKey_of_names keys.target,
    NodeContext.requireInput, holds, bind, Except.bind,
    pure, Except.pure, Value.asString?]
  rfl

theorem read_textOf (ctx : NodeContext) (legible : value.Of Binary64.Legible) :
    Json.read (textOf ctx value) =
      if value.depth ≤ Json.depthLimit then .ok value.toJson else .error .tooDeep := by
  have stable := Value.stable_toJson legible
  rw [← Value.depth_toJson, textOf]
  split
  · exact Json.read_pretty stable
  · exact Json.read_compact stable

/-- The text of a value is parsed to the value unless it is nested too deep, which is what the call then
complains of. -/
theorem parseJson_textOf (keys : Between ctx.config ("json", "parsed") source target) (writer : NodeContext)
    (legible : value.Of Binary64.Legible)
    (holds : ctx.context.get? source = some (.string (textOf writer value))) :
    parseJson ctx =
      if value.depth ≤ Json.depthLimit then .ok (.proceed (ctx.context.insert target value.unsigned))
      else .error (.executionFailed ("JSON parse error: " ++ Json.ReadError.tooDeep.message)) := by
  rw [parseJson_eq keys holds, read_textOf writer legible]
  by_cases shallow : value.depth ≤ Json.depthLimit
  · simp only [shallow, if_true, Value.ofJson_toJson legible]
  · simp only [shallow, if_false]

/-- A value of whole numbers that is written under one key and parsed from there into another comes back
equal, if it is nested no deeper than a text may be. Both calls succeed, and no other key is changed. -/
theorem parse_of_stringify {ctx next : NodeContext} {source key target : String} {value : Value}
    (writes : Between ctx.config ("value", "json") source key)
    (reads : Between next.config ("json", "parsed") key target)
    (holds : ctx.context.get? source = some value) (whole : value.Of Binary64.Whole)
    (shallow : value.depth ≤ Json.depthLimit) :
    ∃ written parsed,
      stringifyExecutor.execute ctx = .answer (.ok (.proceed written)) ∧
      parseExecutor.execute { next with context := written } = .answer (.ok (.proceed parsed)) ∧
      parsed.get? target = some value.unsigned ∧ value.equal value.unsigned = true ∧
      ∀ other, other ≠ key → other ≠ target → parsed.get? other = ctx.context.get? other := by
  have legible := whole.mono fun _ => Binary64.Whole.legible
  let written := ctx.context.insert key (.string (textOf ctx value))
  have there : written.get? key = some (.string (textOf ctx value)) := by
    rw [Fields.get?_insert, if_pos rfl]
  have parses := @parseJson_textOf { next with context := written } _ _ _ reads ctx legible there
  rw [if_pos shallow] at parses
  refine ⟨written, written.insert target value.unsigned, congrArg _ (stringifyJson_eq writes holds),
    congrArg _ parses, ?_, Value.equal_unsigned legible, ?_⟩
  · rw [Fields.get?_insert, if_pos rfl]
  · intro other apart beside
    rw [Fields.get?_insert, if_neg beside, Fields.get?_insert, if_neg apart]

namespace Sample

/-- Numbers and texts with escapes, two levels deep. -/
def order : Value :=
  .object [("items", .array [.number (.ofInt 3), .string "a\"\n\t"]), ("note", .null)]

theorem order_of {P : Binary64 → Prop} (three : P (.ofInt 3)) : order.Of P := by
  refine .object (by decide) ?_
  simp only [List.forall_mem_cons, List.not_mem_nil, false_imp_iff, implies_true, and_true]
  refine ⟨.array ?_, .null⟩
  simpa using ⟨.number three, .string "a\"\n\t"⟩

/-- The order, to be worked on in its own place. -/
def ordering : NodeContext :=
  .standalone [("pretty", .bool true), ("source", .string "order"), ("target", .string "order")]
    [("keep", .bool true), ("order", order)] false

end Sample

/-- The order is rendered and parsed in its own place, and comes back. -/
theorem parse_of_stringify_of_order :
    ∃ written parsed,
      stringifyExecutor.execute Sample.ordering = .answer (.ok (.proceed written)) ∧
      parseExecutor.execute { Sample.ordering with context := written } =
        .answer (.ok (.proceed parsed)) ∧
      parsed.get? "order" = some Sample.order ∧ parsed.get? "keep" = some (.bool true) := by
  have three : (Binary64.ofInt 3).Whole := ⟨3, by decide, by decide⟩
  have exact : Sample.order.unsigned = Sample.order :=
    Value.unsigned_of_exact (Sample.order_of ⟨three.legible, by decide⟩)
  have keys {assumed : String × String} :
      Between Sample.ordering.config assumed "order" "order" := ⟨.named rfl, .named rfl⟩
  obtain ⟨written, parsed, writes, parses, there, -, kept⟩ :=
    parse_of_stringify keys keys rfl (Sample.order_of three) (by decide)
  rw [exact] at there
  exact ⟨written, parsed, writes, parses, there, kept "keep" (by decide) (by decide)⟩

end Transform

end WorkflowEngine
