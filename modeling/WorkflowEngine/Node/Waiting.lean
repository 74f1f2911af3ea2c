import WorkflowEngine.Node.Basic

/-!
# Waiting, delaying and logging

Nodes that do not compute: `flow.wait` pauses a run until someone resumes it, `time.delay` lets time
pass, and `debug.log` announces the context. Only `flow.wait` changes the context, at one key.
-/
namespace WorkflowEngine

namespace Wait

/-- The context key that tells what a paused run waits for. -/
def waitingKey : String := "waiting_for"

def execute (ctx : NodeContext) : Behaviour :=
  let event := ctx.configOr "event" (.string "resume")
  .info ("Waiting for " ++ event.display)
    (.answer (.ok (.pause (ctx.context.insert waitingKey event))))

def executor : Executor where
  nodeType := "flow.wait"
  metadata := { description := "Pause until resumed with external input", category := "flow" }
  execute := execute

end Wait

namespace Delay

def defaultDelayMs : Nat := 1000

/-- The configured delay, a number that is not negative, without its fraction. -/
def delayMs (config : Context) : Except NodeError Nat :=
  match config.get? "delay_ms" with
  | none => .ok defaultDelayMs
  | some value =>
    match value.asNumber?.filter fun x => !x.isNaN && 0 ≤ x.position with
    | some x => .ok x.toCount
    | none => .error (.configuration "delay_ms must be a non-negative number")

def execute (ctx : NodeContext) : Behaviour :=
  .ofExcept (delayMs ctx.config) fun ms =>
    .info ("Delaying for " ++ toString ms ++ "ms")
      (.sleep ms (.answer (.ok (.proceed ctx.context))))

def executor : Executor where
  nodeType := "time.delay"
  metadata := { description := "Delay execution for specified milliseconds", category := "time" }
  execute := execute

end Delay

namespace Log

/-- The message of the configuration, or else of the context, if it is a text. -/
def message (ctx : NodeContext) : String :=
  ((ctx.config.get? "message" <|> ctx.context.get? "message").bind Value.asString?).getD
    "(no message)"

/-- One line for every key of the context. -/
def lines (context : Context) : List String :=
  context.map fun (key, value) => "  " ++ key ++ ": " ++ value.display

def execute (ctx : NodeContext) : Behaviour :=
  (("DEBUG: " ++ message ctx) :: lines ctx.context).foldr Behaviour.info
    (.answer (.ok (.proceed ctx.context)))

def executor : Executor where
  nodeType := "debug.log"
  metadata := { description := "Logs a message and the context for debugging", category := "debug" }
  execute := execute

end Log

end WorkflowEngine
