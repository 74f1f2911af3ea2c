import WorkflowEngine.Node.Standard
import WorkflowEngine.Proofs.Event.Codec
import WorkflowEngine.Proofs.Node.Frame
import WorkflowEngine.Proofs.Value.Signs

/-!
# Nodes that take no notice of the signs of zeros

A node type takes no notice of the signs of zeros if calls that differ only in them unfold alike, but
for such signs in what is announced and answered. The standard ones take none.
-/
namespace WorkflowEngine

namespace NodeOutcome

def unsigned : NodeOutcome → NodeOutcome
  | .proceed context => .proceed context.unsigned
  | .pause context => .pause context.unsigned
  | .branch output context => .branch output context.unsigned

variable (outcome : NodeOutcome)

@[simp] theorem context_unsigned : outcome.unsigned.context = outcome.context.unsigned := by
  cases outcome <;> rfl

@[simp] theorem selection_unsigned : outcome.unsigned.selection = outcome.selection := by
  cases outcome <;> rfl

@[simp] theorem isPause_unsigned : outcome.unsigned.isPause = outcome.isPause := by
  cases outcome <;> rfl

end NodeOutcome

def NodeResult.unsigned (result : NodeResult) : NodeResult := result.map (·.unsigned)

namespace Behaviour

def unsigned : Behaviour → Behaviour
  | .answer result => .answer result.unsigned
  | .emit event rest => .emit event.unsigned rest.unsigned
  | .sleep milliseconds rest => .sleep milliseconds rest.unsigned
  | .hang attentive => .hang attentive

/-- Calls that unfold alike, but for the signs of zeros. -/
def Alike (behaviour other : Behaviour) : Prop := other.unsigned = behaviour.unsigned

variable {behaviour other : Behaviour}

theorem Alike.refl (behaviour : Behaviour) : behaviour.Alike behaviour := rfl

theorem Alike.emit (event : NodeEvent) (alike : behaviour.Alike other) :
    (emit event behaviour).Alike (emit event other) := by
  rw [Alike, unsigned, unsigned, alike]

theorem Alike.infos (messages : List String) (alike : behaviour.Alike other) :
    (messages.foldr info behaviour).Alike (messages.foldr info other) := by
  induction messages with
  | nil => exact alike
  | cons message messages ih => exact ih.emit (.info message)

theorem Alike.sleep (milliseconds : Nat) (alike : behaviour.Alike other) :
    (sleep milliseconds behaviour).Alike (sleep milliseconds other) := by
  rw [Alike, unsigned, unsigned, alike]

theorem Alike.ofExcept {α : Type} {rest after : α → Behaviour} (step : Except NodeError α)
    (alike : ∀ a, (rest a).Alike (after a)) :
    (ofExcept step rest).Alike (ofExcept step after) := by
  cases step with
  | error cause => exact .refl (fail cause)
  | ok a => exact alike a

theorem alike_answer {result after : NodeResult} (same : after.unsigned = result.unsigned) :
    (answer result).Alike (answer after) :=
  congrArg answer same

theorem alike_ok {outcome after : NodeOutcome} (same : after.unsigned = outcome.unsigned) :
    (answer (.ok outcome)).Alike (answer (.ok after)) :=
  alike_answer (congrArg Except.ok same)

end Behaviour

namespace NodeContext

def unsigned (ctx : NodeContext) : NodeContext :=
  { ctx with config := ctx.config.unsigned, context := ctx.context.unsigned }

variable (ctx : NodeContext)

theorem get?_config_unsigned (name : String) :
    Fields.get? ctx.unsigned.config name = (ctx.config.get? name).map Value.unsigned :=
  ctx.config.get?_unsigned name

theorem get?_context_unsigned (name : String) :
    Fields.get? ctx.unsigned.context name = (ctx.context.get? name).map Value.unsigned :=
  ctx.context.get?_unsigned name

theorem configOr_unsigned (name : String) (absent : Value) :
    ctx.unsigned.configOr name absent.unsigned = (ctx.configOr name absent).unsigned := by
  rw [configOr, get?_config_unsigned, Option.getD_map]
  rfl

theorem requireConfig_unsigned (name : String) :
    ctx.unsigned.requireConfig name = (ctx.requireConfig name).map (·.unsigned) := by
  unfold requireConfig
  rw [get?_config_unsigned]
  cases ctx.config.get? name <;> rfl

theorem requireInput_unsigned (name : String) :
    ctx.unsigned.requireInput name = (ctx.requireInput name).map (·.unsigned) := by
  unfold requireInput
  rw [get?_context_unsigned]
  cases ctx.context.get? name <;> rfl

theorem requireConfigText_unsigned (name : String) :
    ctx.unsigned.requireConfigText name = ctx.requireConfigText name := by
  unfold requireConfigText
  rw [requireConfig_unsigned]
  cases ctx.requireConfig name with
  | error cause => rfl
  | ok value =>
    dsimp only [Except.map, bind, Except.bind]
    rw [Value.asString?_unsigned]

/-- A text of a configuration. -/
theorem configText_unsigned (name : String) :
    (Fields.get? ctx.unsigned.config name).bind Value.asString? =
      (ctx.config.get? name).bind Value.asString? := by
  rw [get?_config_unsigned, Option.bind_map]
  exact congrArg _ (funext Value.asString?_unsigned)

end NodeContext

/-- Calls that differ only in the signs of zeros unfold alike. -/
def Executor.Blind (executor : Executor) : Prop :=
  ∀ ctx, (executor.execute ctx).Alike (executor.execute ctx.unsigned)

def Registry.Blind (registry : Registry) : Prop :=
  ∀ nodeType executor, registry.get? nodeType = some executor → executor.Blind

/-- The configured value, or else that of the context, as a text. -/
theorem NodeContext.text_unsigned (ctx : NodeContext) (name : String) :
    (Fields.get? ctx.config.unsigned name <|> Fields.get? ctx.context.unsigned name).bind Value.asString? =
      (ctx.config.get? name <|> ctx.context.get? name).bind Value.asString? := by
  rw [Context.get?_unsigned, Context.get?_unsigned]
  cases ctx.config.get? name with
  | some value => exact value.asString?_unsigned
  | none =>
    cases ctx.context.get? name with
    | some value => exact value.asString?_unsigned
    | none => rfl

/-- A value under a key of the context. -/
theorem NodeContext.alike_insert (ctx : NodeContext) (key : String) (value : Value) :
    (Behaviour.answer (.ok (.proceed (ctx.context.insert key value)))).Alike
      (.answer (.ok (.proceed (Fields.insert key value ctx.context.unsigned)))) := by
  refine Behaviour.alike_ok (congrArg NodeOutcome.proceed ?_)
  rw [Context.unsigned_insert, Context.unsigned_insert, Context.unsigned_unsigned]

namespace Log

theorem lines_unsigned (context : Context) : lines context.unsigned = lines context := by
  rw [lines, lines, Context.unsigned_eq, Fields.mapValues, List.map_map]
  exact List.map_congr_left fun field _ =>
    congrArg ("  " ++ field.1 ++ ": " ++ ·) (Value.display_unsigned field.2)

theorem blind : executor.Blind := by
  intro ctx
  have message : message ctx.unsigned = message ctx :=
    congrArg (·.getD "(no message)") (ctx.text_unsigned "message")
  have lines : lines ctx.unsigned.context = lines ctx.context := lines_unsigned ctx.context
  change (execute ctx).Alike (execute ctx.unsigned)
  rw [execute, execute, message, lines]
  exact .infos _ (Behaviour.alike_ok (congrArg NodeOutcome.proceed ctx.context.unsigned_unsigned))

end Log

namespace Delay

theorem delayMs_unsigned (config : Context) : delayMs config.unsigned = delayMs config := by
  unfold delayMs
  rw [Context.get?_unsigned]
  cases config.get? "delay_ms" with
  | none => rfl
  | some value =>
    simp only [Option.map_some, Value.asNumber?_unsigned]
    cases value.asNumber? with
    | none => rfl
    | some x =>
      simp only [Option.map_some, Option.filter_some, Binary64.isNaN_unsigned,
        Binary64.position_unsigned]
      by_cases fits : (!x.isNaN && decide (0 ≤ x.position)) = true
      · simp only [if_pos fits, Binary64.toCount_unsigned]
      · simp only [if_neg fits]

theorem blind : executor.Blind := by
  intro ctx
  have delay : delayMs ctx.unsigned.config = delayMs ctx.config := delayMs_unsigned ctx.config
  change (execute ctx).Alike (execute ctx.unsigned)
  rw [execute, execute, delay]
  exact .ofExcept _ fun ms => .emit _ (.sleep ms
    (Behaviour.alike_ok (congrArg NodeOutcome.proceed ctx.context.unsigned_unsigned)))

end Delay

namespace Wait

theorem blind : executor.Blind := by
  intro ctx
  let event := ctx.configOr "event" (.string "resume")
  have same : ctx.unsigned.configOr "event" (.string "resume") = event.unsigned :=
    ctx.configOr_unsigned "event" (.string "resume")
  change (execute ctx).Alike (execute ctx.unsigned)
  rw [execute, execute, same, Value.display_unsigned]
  refine .emit _ (Behaviour.alike_ok (congrArg NodeOutcome.pause ?_))
  change Context.unsigned (Fields.insert _ _ ctx.context.unsigned) = Context.unsigned (Fields.insert _ _ _)
  simp only [Context.unsigned_insert, Context.unsigned_unsigned, Value.unsigned_unsigned]
  rfl

end Wait

namespace Transform

theorem configuredKey_unsigned (ctx : NodeContext) (name absent : String) :
    configuredKey ctx.unsigned name absent = configuredKey ctx name absent := by
  unfold configuredKey
  rw [ctx.get?_config_unsigned]
  cases ctx.config.get? name with
  | none => rfl
  | some value => simp only [Option.map_some, Value.asString?_unsigned]

theorem set_blind : setExecutor.Blind := by
  intro ctx
  refine Behaviour.alike_answer ?_
  rw [set, set, ctx.requireConfig_unsigned]
  cases ctx.requireConfig "values" with
  | error cause => rfl
  | ok value =>
    cases value with
    | object values =>
      refine congrArg (Except.ok ∘ NodeOutcome.proceed) ?_
      change Context.unsigned (Fields.merge ctx.context.unsigned (Context.unsigned values)) =
        Context.unsigned (Fields.merge ctx.context values)
      rw [Context.unsigned_merge, Context.unsigned_merge, Context.unsigned_unsigned,
        Context.unsigned_unsigned]
    | _ => rfl

theorem parse_blind : parseExecutor.Blind := by
  intro ctx
  change (Behaviour.answer (parseJson ctx)).Alike (.answer (parseJson ctx.unsigned))
  rw [parseJson, parseJson, configuredKey_unsigned, configuredKey_unsigned]
  cases configuredKey ctx "source" "json" with
  | error cause => rfl
  | ok source =>
    cases configuredKey ctx "target" "parsed" with
    | error cause => rfl
    | ok target =>
      change (Behaviour.answer ((ctx.requireInput source).bind _)).Alike
        (.answer ((ctx.unsigned.requireInput source).bind _))
      rw [ctx.requireInput_unsigned]
      cases ctx.requireInput source with
      | error cause => rfl
      | ok input =>
        cases input with
        | string text =>
          dsimp only [Except.map, Except.bind, Value.unsigned, Value.asString?]
          cases Json.read text with
          | error cause => rfl
          | ok json => exact ctx.alike_insert target (.ofJson json)
        | _ => rfl

theorem stringify_blind : stringifyExecutor.Blind := by
  intro ctx
  change (Behaviour.answer (stringifyJson ctx)).Alike (.answer (stringifyJson ctx.unsigned))
  rw [stringifyJson, stringifyJson, configuredKey_unsigned, configuredKey_unsigned]
  cases configuredKey ctx "source" "value" with
  | error cause => rfl
  | ok source =>
    cases configuredKey ctx "target" "json" with
    | error cause => rfl
    | ok target =>
      have pretty : (Fields.get? ctx.unsigned.config "pretty").bind Value.asBool? =
          (ctx.config.get? "pretty").bind Value.asBool? := by
        rw [ctx.get?_config_unsigned, Option.bind_map]
        exact congrArg _ (funext Value.asBool?_unsigned)
      change (Behaviour.answer ((ctx.requireInput source).bind _)).Alike
        (.answer ((ctx.unsigned.requireInput source).bind _))
      rw [ctx.requireInput_unsigned, pretty]
      cases ctx.requireInput source with
      | error cause => rfl
      | ok value =>
        change (Behaviour.answer (.ok (.proceed _))).Alike (.answer (.ok (.proceed (Fields.insert _
          (.string (if _ then value.unsigned.toJson.pretty else value.unsigned.toJson.compact)) _))))
        rw [Value.toJson_unsigned]
        exact ctx.alike_insert target _

end Transform

namespace Condition

theorem descend_unsigned (value : Value) (path : List String) :
    descend value.unsigned path = (descend value path).map (·.unsigned) := by
  induction path generalizing value with
  | nil => rfl
  | cons part rest ih =>
    cases value with
    | object fields =>
      change (Fields.get? (Context.unsigned fields) part).bind (descend · rest) =
        ((Fields.get? fields part).bind (descend · rest)).map _
      rw [Context.get?_unsigned]
      cases Fields.get? fields part with
      | none => rfl
      | some value => exact ih value
    | _ => rfl

theorem order?_unsigned (value other : Value) :
    Comparison.order? value.unsigned other.unsigned = Comparison.order? value other := by
  cases value with
  | number x =>
    cases other with
    | number y => exact congrArg id (x.compare?_unsigned y)
    | _ => rfl
  | string s => cases other <;> rfl
  | _ => rfl

theorem holds_unsigned (comparison : Comparison) (field : Option Value) (expected : Value) :
    comparison.holds (field.map (·.unsigned)) expected.unsigned = comparison.holds field expected := by
  have actual : (field.map (·.unsigned)).filter (fun value => !value.isNull) =
      (field.filter fun value => !value.isNull).map (·.unsigned) := by
    rw [Option.filter_map]
    exact congrArg _ (congrArg (Option.filter · field)
      (funext fun value => congrArg (!·) value.isNull_unsigned))
  unfold Comparison.holds
  rw [actual]
  cases field.filter (fun value => !value.isNull) with
  | none =>
    have unequal : Value.equal .null expected.unsigned = Value.equal .null expected :=
      Value.equal_unsigned_unsigned .null expected
    cases comparison with
    | eq => exact unequal
    | ne => exact congrArg (!·) unequal
    | _ => rfl
  | some value =>
    simp only [Option.map_some, Option.getD_some, Option.bind_some, order?_unsigned,
      Value.equal_unsigned_unsigned, Option.any_some, Value.isTruthy_unsigned, Option.isSome_some]

theorem validate_unsigned (config : Context) : validate config.unsigned = validate config := by
  have configured : configured config.unsigned = configured config := by
    unfold configured
    rw [Context.get?_unsigned]
    cases config.get? "operator" with
    | none => rfl
    | some value => cases value <;> rfl
  unfold validate
  rw [configured, Context.get?_unsigned, Context.contains_unsigned]
  cases config.get? "field" with
  | none => rfl
  | some value => cases value <;> rfl

theorem decide_unsigned (ctx : NodeContext) : decide ctx.unsigned = decide ctx := by
  have operator : ctx.unsigned.configOr "operator" (.string "eq") =
      (ctx.configOr "operator" (.string "eq")).unsigned :=
    ctx.configOr_unsigned "operator" (.string "eq")
  have expected : ctx.unsigned.configOr "value" .null = (ctx.configOr "value" .null).unsigned :=
    ctx.configOr_unsigned "value" .null
  have taken : ctx.unsigned.configOr "true_output" (.string defaultTrueOutput) =
      (ctx.configOr "true_output" (.string defaultTrueOutput)).unsigned :=
    ctx.configOr_unsigned "true_output" (.string defaultTrueOutput)
  have avoided : ctx.unsigned.configOr "false_output" (.string defaultFalseOutput) =
      (ctx.configOr "false_output" (.string defaultFalseOutput)).unsigned :=
    ctx.configOr_unsigned "false_output" (.string defaultFalseOutput)
  have found (path : String) : lookup ctx.unsigned.context path =
      (lookup ctx.context path).map (·.unsigned) :=
    descend_unsigned (.object ctx.context) (path.splitOn ".")
  have valid : validate ctx.unsigned.config = validate ctx.config := validate_unsigned ctx.config
  unfold decide
  simp only [valid, ctx.requireConfigText_unsigned, operator, expected, taken, avoided, found,
    Value.asString?_unsigned, holds_unsigned, ← apply_ite Value.unsigned]

theorem blind : executor.Blind := by
  intro ctx
  change (execute ctx).Alike (execute ctx.unsigned)
  rw [execute, execute, decide_unsigned]
  exact .ofExcept _ fun taken => .emit _ (Behaviour.alike_ok
    (congrArg (NodeOutcome.branch taken.1) ctx.context.unsigned_unsigned))

end Condition

namespace HttpNode

theorem configOrContext_unsigned (ctx : NodeContext) (name : String) :
    configOrContext ctx.unsigned name = (configOrContext ctx name).map (·.unsigned) := by
  unfold configOrContext
  rw [ctx.get?_config_unsigned, ctx.get?_context_unsigned]
  cases ctx.config.get? name <;> rfl

theorem address_unsigned (ctx : NodeContext) : address ctx.unsigned = address ctx := by
  unfold address
  rw [configOrContext_unsigned]
  cases configOrContext ctx "url" with
  | none => rfl
  | some value => simp only [Option.map_some, Value.asString?_unsigned]

theorem textHeaders_unsigned (ctx : NodeContext) : textHeaders ctx.unsigned = textHeaders ctx := by
  unfold textHeaders
  rw [ctx.get?_config_unsigned]
  cases ctx.config.get? "headers" with
  | none => rfl
  | some value =>
    cases value with
    | object fields =>
      change (Value.unsignedFields fields).filterMap _ = fields.filterMap _
      rw [Value.unsignedFields_eq, Fields.mapValues, List.filterMap_map]
      exact List.filterMap_congr fun field _ =>
        congrArg (Option.map (Prod.mk field.1)) field.2.asString?_unsigned
    | _ => rfl

theorem build_unsigned (ctx : NodeContext) (method url : String) :
    build ctx.unsigned method url = build ctx method url := by
  unfold build
  rw [textHeaders_unsigned, configOrContext_unsigned]
  cases configOrContext ctx "body" with
  | none => simp only [Option.map_none]
  | some value =>
    cases value with
    | null | bool b | string s => simp only [Option.map_some, Value.unsigned]
    | number x =>
      have text : (Value.number x.unsigned).toJson = (Value.number x).toJson :=
        Value.toJson_unsigned (.number x)
      simp only [Option.map_some, Value.unsigned, text]
    | array items =>
      have text : (Value.array (Value.unsignedItems items)).toJson = (Value.array items).toJson :=
        Value.toJson_unsigned (.array items)
      simp only [Option.map_some, Value.unsigned, text]
    | object fields =>
      have text : (Value.object (Value.unsignedFields fields)).toJson = (Value.object fields).toJson :=
        Value.toJson_unsigned (.object fields)
      simp only [Option.map_some, Value.unsigned, text]

theorem exchange_alike (client : HttpClient) (ctx : NodeContext) (method url : String) :
    (exchange client ctx method url).Alike (exchange client ctx.unsigned method url) := by
  have target : target ctx.unsigned = target ctx :=
    congrArg (·.getD "response") (ctx.configText_unsigned "target")
  unfold exchange
  rw [build_unsigned, target]
  cases build ctx method url with
  | error cause => exact .refl _
  | ok request =>
    change (if ctx.cancelled then _ else _ : Behaviour).Alike (if ctx.cancelled then _ else _)
    by_cases cancelled : ctx.cancelled = true
    · rw [if_pos cancelled, if_pos cancelled]
      exact .refl _
    · rw [if_neg cancelled, if_neg cancelled]
      cases client request with
      | failed cause | cut cause => exact .refl _
      | answered status headers body =>
        refine Behaviour.Alike.emit _ ?_
        by_cases failed : Http.isServerError status = true
        · rw [if_pos failed, if_pos failed]
          exact .refl _
        · rw [if_neg failed, if_neg failed]
          exact ctx.alike_insert _ _

theorem blind (client : HttpClient) : (executor client).Blind := by
  intro ctx
  have method : method ctx.unsigned = method ctx := by
    rw [method, method, show ctx.unsigned.configOr "method" (.string "GET") =
      (ctx.configOr "method" (.string "GET")).unsigned from
        ctx.configOr_unsigned "method" (.string "GET"), Value.asString?_unsigned]
  change (execute client ctx).Alike (execute client ctx.unsigned)
  rw [execute, execute, address_unsigned, method]
  refine .ofExcept _ fun url => .emit _ ?_
  by_cases known : methods.contains (HttpNode.method ctx) = true
  · rw [if_pos known, if_pos known]
    exact exchange_alike client ctx _ url
  · rw [if_neg known, if_neg known]
    exact .refl _

end HttpNode

/-- No standard node takes notice of the signs of zeros. -/
theorem Standard.blind (client : HttpClient) : (registry client).Blind := by
  intro nodeType executor found
  obtain ⟨mem, -⟩ := mem_of_get? found
  simp only [executors, List.mem_cons, List.not_mem_nil, or_false] at mem
  obtain rfl | rfl | rfl | rfl | rfl | rfl | rfl | rfl := mem
  · exact Log.blind
  · exact Delay.blind
  · exact Transform.set_blind
  · exact Transform.parse_blind
  · exact Transform.stringify_blind
  · exact Condition.blind
  · exact Wait.blind
  · exact HttpNode.blind client

end WorkflowEngine
