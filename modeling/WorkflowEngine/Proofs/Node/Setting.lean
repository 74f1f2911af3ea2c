import WorkflowEngine.Node.Standard
import WorkflowEngine.Proofs.Text.Split

/-!
# Settings that are checked and settings that are not

A node type may check a configuration before a run; the check of `flow validate` is nothing else. What
an accepted configuration can still be refused for is listed here, setting by setting: the outputs of a
condition, the delay, the keys of the two JSON nodes and the method of a request. Every other setting
is checked before the run or has no wrong value.
-/
namespace WorkflowEngine

namespace Behaviour

variable {cancelAt : Option Nat} {elapsed : Nat}

@[simp] theorem alone_answer (result : NodeResult) :
    ((answer result).alone cancelAt elapsed).result = some result := rfl

end Behaviour

namespace Condition

/-- The output a comparison selects, as configured. -/
def selected (ctx : NodeContext) (comparison : Comparison) (field : String) : Value :=
  if comparison.holds (lookup ctx.context field) (ctx.configOr "value" .null) then
    ctx.configOr "true_output" (.string defaultTrueOutput)
  else ctx.configOr "false_output" (.string defaultFalseOutput)

end Condition

namespace Transform

end Transform

/-- A setting that its node type takes unchecked and the call then refuses, by the type of the node
and the text of the refusal. -/
inductive Overlooked (ctx : NodeContext) (nodeType message : String) : Prop
  | output {comparison : Comparison} {field : String} (htype : nodeType = "flow.condition")
      (hcomparison : Condition.configured ctx.config = .ok comparison)
      (hfield : ctx.config.get? "field" = some (.string field))
      (houtput : (Condition.selected ctx comparison field).asString? = none)
      (hmessage : message = "Branch outputs must be strings")
  | delay {value : Value} (htype : nodeType = "time.delay")
      (hvalue : ctx.config.get? "delay_ms" = some value)
      (hcount : ∀ x, value.asNumber? = some x → x.isNaN = true ∨ x.position < 0)
      (hmessage : message = "delay_ms must be a non-negative number")
  | source {value : Value}
      (htype : nodeType = "transform.json_parse" ∨ nodeType = "transform.json_stringify")
      (hvalue : ctx.config.get? "source" = some value) (htext : value.asString? = none)
      (hmessage : message = "Config 'source' must be a string")
  | target {value : Value}
      (htype : nodeType = "transform.json_parse" ∨ nodeType = "transform.json_stringify")
      (hsource : ∀ source, ctx.config.get? "source" = some source → source.asString? ≠ none)
      (hvalue : ctx.config.get? "target" = some value) (htext : value.asString? = none)
      (hmessage : message = "Config 'target' must be a string")
  | method {url : String} (htype : nodeType = "http.request")
      (hurl : HttpNode.address ctx = .ok url) (hmethod : HttpNode.method ctx ∉ HttpNode.methods)
      (hmessage : message = "Unsupported method: " ++ HttpNode.method ctx)

variable {ctx : NodeContext} {message : String} {cancelAt : Option Nat} {elapsed : Nat}

/-- The types of node that overlook a setting. -/
theorem Overlooked.nodeType {nodeType : String} (h : Overlooked ctx nodeType message) :
    nodeType ∈ ["flow.condition", "time.delay", "transform.json_parse", "transform.json_stringify",
      "http.request"] := by
  cases h with
  | source htype | target htype => rcases htype with rfl | rfl <;> simp
  | output htype | delay htype | method htype => simp [htype]

namespace Sample

end Sample

namespace Standard

end Standard

end WorkflowEngine
