import WorkflowEngine.Error

/-!
# Workflow definitions

A definition names its nodes and the connections between their ports, and may override the engine's
deadline and cycle policy. `validate` checks the structure only: cycles are a matter of policy and are
not covered here.
-/
namespace WorkflowEngine

/-- The port of a connection that does not name one. -/
def defaultPort : String := "default"

/-- One node of a definition. -/
structure NodeSpec where
  id : NodeId
  nodeType : String
  name : Option String := none
  /-- Configuration handed to the executor as it is. -/
  config : Context := []
  /-- A deadline of its own, in milliseconds. -/
  timeoutMs : Option Nat := none
  deriving Inhabited

namespace NodeSpec

/-- The name, or else the id. -/
def displayName (node : NodeSpec) : String := node.name.getD node.id

end NodeSpec

structure Connection where
  fromNodeId : NodeId
  toNodeId : NodeId
  fromOutput : String := defaultPort
  toInput : String := defaultPort
  deriving DecidableEq, Inhabited

/-- What to do with a definition whose graph has a cycle. -/
inductive CyclePolicy where
  /-- Run it; every node is dispatched at most once. -/
  | allow
  /-- Refuse to start. -/
  | reject
  deriving DecidableEq, Inhabited

namespace CyclePolicy

def name : CyclePolicy → String
  | .allow => "allow"
  | .reject => "reject"

def ofName? (name : String) : Option CyclePolicy :=
  if name == "allow" then some .allow
  else if name == "reject" then some .reject
  else none

/-- The text with its ASCII letters in lower case. -/
def lowered (text : String) : String := String.ofList (text.toList.map Char.toLower)

/-- A policy by its name in letters of either case. -/
def parse (text : String) : Except String CyclePolicy :=
  match ofName? (lowered text) with
  | some policy => .ok policy
  | none => .error ("unknown cycle policy: " ++ lowered text)

end CyclePolicy

/-- What a definition overrides of the engine's settings. -/
structure WorkflowSettings where
  timeoutMs : Option Nat := none
  cyclePolicy : Option CyclePolicy := none
  deriving DecidableEq, Inhabited

structure Workflow where
  id : WorkflowId
  name : String := ""
  description : Option String := none
  nodes : List NodeSpec := []
  connections : List Connection := []
  settings : WorkflowSettings := {}
  deriving Inhabited

namespace Workflow

def addNode (workflow : Workflow) (node : NodeSpec) : Workflow :=
  { workflow with nodes := workflow.nodes ++ [node] }

/-- Connect two nodes through named ports. -/
def connect (workflow : Workflow) (source : NodeId) (output : String) (target : NodeId)
    (input : String) : Workflow :=
  { workflow with connections := workflow.connections ++ [⟨source, target, output, input⟩] }

/-- Connect two nodes through their default ports. -/
def link (workflow : Workflow) (source target : NodeId) : Workflow :=
  workflow.connect source defaultPort target defaultPort

def findNode? (workflow : Workflow) (id : NodeId) : Option NodeSpec :=
  workflow.nodes.find? (·.id == id)

/-- The first empty or repeated node id, given the ids before. -/
def checkNodes : (seen : List NodeId) → List NodeSpec → Except WorkflowError Unit
  | _, [] => .ok ()
  | seen, node :: rest =>
    if node.id = "" then .error (.invalid "node with empty id")
    else if node.id ∈ seen then .error (.duplicateNode node.id)
    else checkNodes (node.id :: seen) rest

/-- The first end of a connection that is no node. -/
def checkConnections (ids : List NodeId) : List Connection → Except WorkflowError Unit
  | [] => .ok ()
  | c :: rest =>
    match [c.fromNodeId, c.toNodeId].find? (· ∉ ids) with
    | some stray =>
      .error (.invalidConnection
        (c.fromNodeId ++ " -> " ++ c.toNodeId ++ " references unknown node " ++ stray))
    | none => checkConnections ids rest

/-- At least one node, unique ids, and no connection to what is not there. -/
def validate (workflow : Workflow) : Except WorkflowError Unit := do
  if workflow.nodes.isEmpty then throw (.invalid "workflow has no nodes")
  checkNodes [] workflow.nodes
  checkConnections (workflow.nodes.map (·.id)) workflow.connections

end Workflow

end WorkflowEngine
