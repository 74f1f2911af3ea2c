import WorkflowEngine.Node.Basic

/-!
# Branching on a condition

`flow.condition` compares a field of the context with a configured value and selects one of two
outputs. A null field counts as a missing one. Texts are ordered by code points, numbers as numbers,
and nothing else is ordered.
-/
namespace WorkflowEngine

inductive Comparison where
  | eq
  | ne
  | gt
  | gte
  | lt
  | lte
  | exist
  | truthy
  deriving DecidableEq, Inhabited

namespace Comparison

/-- A comparison by its word or sign. -/
def parse (text : String) : Except NodeError Comparison :=
  match text with
  | "eq" | "==" => .ok .eq
  | "ne" | "!=" => .ok .ne
  | "gt" | ">" => .ok .gt
  | "gte" | ">=" => .ok .gte
  | "lt" | "<" => .ok .lt
  | "lte" | "<=" => .ok .lte
  | "exists" => .ok .exist
  | "truthy" => .ok .truthy
  | other => .error (.configuration ("Unknown operator: " ++ other))

/-- The name in messages. -/
def name : Comparison → String
  | .eq => "Eq"
  | .ne => "Ne"
  | .gt => "Gt"
  | .gte => "Gte"
  | .lt => "Lt"
  | .lte => "Lte"
  | .exist => "Exists"
  | .truthy => "Truthy"

def needsOperand : Comparison → Bool
  | .exist => false
  | .truthy => false
  | _ => true

/-- The order of two texts or of two numbers. -/
def order? : Value → Value → Option Ordering
  | .string a, .string b => some (if a < b then .lt else if a = b then .eq else .gt)
  | .number x, .number y => x.compare? y
  | _, _ => none

/-- Does the comparison hold between a field and the configured value? -/
def holds (comparison : Comparison) (field : Option Value) (expected : Value) : Bool :=
  let actual := field.filter fun value => !value.isNull
  let ordered (accept : Ordering → Bool) : Bool :=
    (actual.bind fun value => order? value expected).any accept
  match comparison with
  | .exist => actual.isSome
  | .truthy => actual.any Value.isTruthy
  | .eq => (actual.getD .null).equal expected
  | .ne => !(actual.getD .null).equal expected
  | .gt => ordered (· == .gt)
  | .gte => ordered (· != .lt)
  | .lt => ordered (· == .lt)
  | .lte => ordered (· != .gt)

end Comparison

namespace Condition

def nodeType : String := "flow.condition"

def defaultTrueOutput : String := "yes"

def defaultFalseOutput : String := "no"

/-- Follow the rest of a path through nested objects. -/
def descend : Value → List String → Option Value
  | value, [] => some value
  | value, part :: rest => do
    descend (← Fields.get? (← value.asObject?) part) rest

/-- A field by a dotted path. -/
def lookup (context : Context) (path : String) : Option Value :=
  descend (.object context) (path.splitOn ".")

/-- The comparison a configuration asks for. -/
def configured (config : Context) : Except NodeError Comparison :=
  match config.get? "operator" with
  | none => .ok .eq
  | some (.string text) => Comparison.parse text
  | some _ => .error (.configuration "Config 'operator' must be a string")

def validate (config : Context) : Except NodeError Unit := do
  match config.get? "field" with
  | some (.string _) => pure ()
  | _ => throw (.configuration "flow.condition needs a string 'field'")
  let comparison ← configured config
  if comparison.needsOperand && !config.contains "value" then
    throw (.configuration
      ("Operator " ++ comparison.name ++ " needs a 'value' to compare against"))

/-- The selected output and what is announced about it. -/
def decide (ctx : NodeContext) : Except NodeError (String × String) := do
  validate ctx.config
  let field ← ctx.requireConfigText "field"
  let comparison ← Comparison.parse (((ctx.configOr "operator" (.string "eq")).asString?).getD "eq")
  let expected := ctx.configOr "value" .null
  let matched := comparison.holds (lookup ctx.context field) expected
  let output :=
    if matched then ctx.configOr "true_output" (.string defaultTrueOutput)
    else ctx.configOr "false_output" (.string defaultFalseOutput)
  match output.asString? with
  | some output =>
    return (output, "Condition on '" ++ field ++ "' is " ++ toString matched ++ ", taking '" ++
      output ++ "'")
  | none => throw (.configuration "Branch outputs must be strings")

def execute (ctx : NodeContext) : Behaviour :=
  .ofExcept (decide ctx) fun (output, message) =>
    .info message (.answer (.ok (.branch output ctx.context)))

def executor : Executor where
  nodeType := nodeType
  metadata := {
    description := "Branch on a comparison against a context field"
    category := "flow"
    outputs := [
      ⟨defaultTrueOutput, "Taken when the condition holds"⟩,
      ⟨defaultFalseOutput, "Taken otherwise"⟩] }
  validate := validate
  execute := execute

end Condition

end WorkflowEngine
