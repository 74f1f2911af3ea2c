import WorkflowEngine.Node.Basic

/-!
# The registry of node types

At most one executor per type; registering a type again replaces its executor.
-/
namespace WorkflowEngine

structure Registry where
  executors : Fields Executor := []
  deriving Inhabited

namespace Registry

def empty : Registry := {}

def register (registry : Registry) (executor : Executor) : Registry :=
  ⟨registry.executors.insert executor.nodeType executor⟩

def registerAll (registry : Registry) (executors : List Executor) : Registry :=
  executors.foldl register registry

/-- Register a plain function for a type. -/
def registerFunction (registry : Registry) (nodeType : String) (call : NodeContext → NodeResult) :
    Registry :=
  registry.register { nodeType := nodeType, execute := fun ctx => .answer (call ctx) }

def get? (registry : Registry) (nodeType : String) : Option Executor :=
  registry.executors.get? nodeType

def contains (registry : Registry) (nodeType : String) : Bool := (registry.get? nodeType).isSome

/-- All types, sorted. -/
def types (registry : Registry) : List String := registry.executors.keys

def metadata? (registry : Registry) (nodeType : String) : Option NodeMetadata :=
  (registry.get? nodeType).map (·.metadata)

end Registry

end WorkflowEngine
