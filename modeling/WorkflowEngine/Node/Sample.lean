import WorkflowEngine.Event.Codec
import WorkflowEngine.Node.Registry

/-!
# Sample nodes

Small node types that show how executors are written and that exercise every way a call can unfold:
they leave a trail of visits, branch, pause, fail, hang, speak for themselves, or report what they
were called with.
-/
namespace WorkflowEngine

namespace Sample

/-- The context key under which visits are collected. -/
def trailKey : String := "trail"

/-- Append the node to the trail; what is no array is replaced. -/
def visited (ctx : NodeContext) : Context :=
  let items :=
    match ctx.context.get? trailKey with
    | some (.array items) => items
    | _ => []
  ctx.context.insert trailKey (.array (items ++ [.string ctx.nodeId]))

def visit (ctx : NodeContext) : NodeResult := .ok (.proceed (visited ctx))

def choose (ctx : NodeContext) : NodeResult := do
  let output ← ctx.requireConfigText "pick"
  return .branch output (visited ctx)

def configText (ctx : NodeContext) (name : String) : Option String :=
  (ctx.config.get? name).bind Value.asString?

def configObject (ctx : NodeContext) (name : String) : Context :=
  ((ctx.config.get? name).bind Value.asObject?).getD []

/-- The error a configuration describes. -/
def failure (ctx : NodeContext) : NodeError :=
  let text := (configText ctx "text").getD ""
  let ms := (((ctx.config.get? "ms").bind Value.asNumber?).map Binary64.toCount).getD 0
  match (configText ctx "kind").getD "ExecutionFailed" with
  | "MissingInput" => .missingInput text
  | "InvalidInputType" => .invalidInputType text "string" "other"
  | "Configuration" => .configuration text
  | "Transient" => .transient text
  | "Timeout" => .timeout ms
  | "Cancelled" => .cancelled
  | _ => .executionFailed text

def flaky (ctx : NodeContext) : NodeResult :=
  if ctx.earlierCalls = 0 then .error (.transient "upstream unavailable") else visit ctx

def raw (ctx : NodeContext) : NodeResult :=
  .ok (.ofContext (Fields.merge ctx.context (configObject ctx "set")))

def echo (ctx : NodeContext) : NodeResult :=
  let report := Fields.ofEntries [
    ("nodeId", Value.string ctx.nodeId),
    ("nodeName", .string ctx.nodeName),
    ("workflowId", .string ctx.workflowId),
    ("userId", .string ctx.userId),
    ("executionId", .string ctx.executionId.toText),
    ("config", .object ctx.config),
    ("tools", .array (ctx.tools.keys.map .string)),
    ("greeting", ((Tools.text? ctx.tools "greeting").map Value.string).getD .null),
    ("cancelled", .bool ctx.cancelled)]
  .ok (.proceed ((visited ctx).insert ("echo." ++ ctx.nodeId) (.object report)))

/-- Announce the configured events up to the first that is unreadable. -/
def announce (context : Context) : List Value → Behaviour
  | [] => .answer (.ok (.proceed context))
  | value :: rest =>
    match NodeEvent.decode false value.toJson with
    | .ok event => .emit event (announce context rest)
    | .error _ => .fail (.configuration "unreadable event")

def announceAll (ctx : NodeContext) : Behaviour :=
  match ctx.config.get? "events" with
  | some (.array events) => announce ctx.context events
  | _ => announce ctx.context []

def need (ctx : NodeContext) : NodeResult := do
  let key ← ctx.requireConfigText "key"
  let _ ← ctx.requireInput key
  visit ctx

/-- A type whose calls answer at once. -/
def immediate (nodeType : String) (call : NodeContext → NodeResult) : Executor :=
  { nodeType := nodeType, execute := fun ctx => .answer (call ctx) }

def executors : List Executor := [
  immediate "test.step" visit,
  immediate "test.choose" choose,
  immediate "test.wait" fun ctx => .ok (.pause (visited ctx)),
  immediate "test.fail" fun ctx => .error (failure ctx),
  immediate "test.flaky" flaky,
  { nodeType := "test.hang", execute := fun _ => .hang false },
  { nodeType := "test.watch", execute := fun _ => .hang true },
  immediate "test.raw" raw,
  immediate "test.replace" fun ctx => .ok (.proceed (configObject ctx "context")),
  immediate "test.echo" echo,
  { nodeType := "test.emit", execute := announceAll },
  immediate "test.need" need]

def registry : Registry := Registry.empty.registerAll executors

end Sample

end WorkflowEngine
