import WorkflowEngine.Node.Condition
import WorkflowEngine.Node.HttpRequest
import WorkflowEngine.Node.Registry
import WorkflowEngine.Node.Transform
import WorkflowEngine.Node.Waiting

/-!
# The standard nodes

The eight node types that come with the engine.
-/
namespace WorkflowEngine

namespace Standard

def executors (client : HttpClient) : List Executor := [
  Log.executor,
  Delay.executor,
  Transform.setExecutor,
  Transform.parseExecutor,
  Transform.stringifyExecutor,
  Condition.executor,
  Wait.executor,
  HttpNode.executor client]

def registry (client : HttpClient) : Registry := Registry.empty.registerAll (executors client)

end Standard

end WorkflowEngine
