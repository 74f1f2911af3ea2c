import WorkflowEngine.Node.Basic

/-!
# Transforming the context

`transform.set` merges configured values into the context; `transform.json_parse` and
`transform.json_stringify` turn a JSON text under one key into a value under another, and back.
-/
namespace WorkflowEngine

namespace Transform

/-- The context key a configuration names, or a default. -/
def configuredKey (ctx : NodeContext) (name absent : String) : Except NodeError String :=
  match ctx.config.get? name with
  | none => .ok absent
  | some value =>
    match value.asString? with
    | some key => .ok key
    | none => .error (.configuration ("Config '" ++ name ++ "' must be a string"))

def set (ctx : NodeContext) : NodeResult := do
  match (← ctx.requireConfig "values").asObject? with
  | some values => return .proceed (Fields.merge ctx.context values)
  | none => throw (.configuration "Config 'values' must be an object")

def validateSet (config : Context) : Except NodeError Unit :=
  match config.get? "values" with
  | some (.object _) => .ok ()
  | _ => .error (.configuration "transform.set needs an object under 'values'")

def parseJson (ctx : NodeContext) : NodeResult := do
  let source ← configuredKey ctx "source" "json"
  let target ← configuredKey ctx "target" "parsed"
  let input ← ctx.requireInput source
  match input.asString? with
  | none => throw (.invalidInputType source "string" input.kindName)
  | some text =>
    match Json.read text with
    | .ok json => return .proceed (ctx.context.insert target (.ofJson json))
    | .error cause => throw (.executionFailed ("JSON parse error: " ++ cause.message))

def stringifyJson (ctx : NodeContext) : NodeResult := do
  let source ← configuredKey ctx "source" "value"
  let target ← configuredKey ctx "target" "json"
  let pretty := ((ctx.config.get? "pretty").bind Value.asBool?).getD false
  let json := (← ctx.requireInput source).toJson
  let text := if pretty then json.pretty else json.compact
  return .proceed (ctx.context.insert target (.string text))

def setExecutor : Executor where
  nodeType := "transform.set"
  metadata := { description := "Set context values", category := "transform" }
  validate := validateSet
  execute := fun ctx => .answer (set ctx)

def parseExecutor : Executor where
  nodeType := "transform.json_parse"
  metadata := { description := "Parse JSON string", category := "transform" }
  execute := fun ctx => .answer (parseJson ctx)

def stringifyExecutor : Executor where
  nodeType := "transform.json_stringify"
  metadata := { description := "Convert value to JSON string", category := "transform" }
  execute := fun ctx => .answer (stringifyJson ctx)

end Transform

end WorkflowEngine
