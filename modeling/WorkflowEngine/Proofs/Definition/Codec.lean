import Mathlib.Data.List.Forall2
import WorkflowEngine.Definition.Codec
import WorkflowEngine.Proofs.Execution.Codec

/-!
# Definitions and their JSON

A definition whose deadlines fit their fields comes back from its JSON, but for the signs of zeros in the
configurations of its nodes.
-/
namespace WorkflowEngine

namespace NodeSpec

/-- A deadline within the width of its field, and a configuration whose numbers have a property. -/
structure Of (P : Binary64 → Prop) (node : NodeSpec) : Prop where
  config : node.config.Of P
  timeoutMs : ∀ ms ∈ node.timeoutMs, ms < UInt64.size

theorem Of.mono {P Q : Binary64 → Prop} {node : NodeSpec} (imp : ∀ x, P x → Q x) (of : node.Of P) :
    node.Of Q :=
  { of with config := Value.Of.mono imp of.config }

/-- The node with the signs of its zeros taken off. -/
def unsigned (node : NodeSpec) : NodeSpec := { node with config := node.config.unsigned }

@[simp] theorem unsigned_unsigned (node : NodeSpec) : node.unsigned.unsigned = node.unsigned := by
  simp [unsigned]

/-- Equal in every field. -/
structure Equals (node other : NodeSpec) : Prop where
  fields : other = { node with config := other.config }
  config : (Value.object node.config).equal (.object other.config) = true

variable {node : NodeSpec}

theorem unsigned_of_exact (exact : node.Of Binary64.Exact) : node.unsigned = node := by
  rw [unsigned, Context.unsigned_of_exact exact.config]

theorem equals_unsigned (legible : node.Of Binary64.Legible) : node.Equals node.unsigned :=
  ⟨rfl, Context.equal_unsigned legible.config⟩

/-- The parts a node is written in. -/
def entries (node : NodeSpec) : List (String × Json) := node.toJson.entries

theorem distinct_entries (node : NodeSpec) : Json.Parts.Distinct node.entries := by
  cases timeoutMs : node.timeoutMs <;>
    simp [entries, toJson, Json.entries, Json.Parts.Distinct, timeoutMs]

theorem config_of_entries (node : NodeSpec) (absent : Context) (item : Json.Decode Context) :
    (Json.Parts.named node.entries).withDefault 3 ["data", "config"] absent item =
      item (Context.toJson node.config) := by
  refine Json.Parts.withDefault_of_found ?_ absent item
  cases timeoutMs : node.timeoutMs <;>
    simp [Json.Parts.find, entries, toJson, Json.entries, timeoutMs]

theorem timeoutMs_of_entries (small : ∀ ms ∈ node.timeoutMs, ms < UInt64.size) :
    (Json.Parts.named node.entries).optional 4 "timeoutMs" (Json.Decode.natBelow UInt64.size) =
      .ok node.timeoutMs := by
  cases timeoutMs : node.timeoutMs with
  | none =>
    exact Json.Parts.optional_of_not_mem (by simp [entries, toJson, Json.entries, timeoutMs]) 4 _
  | some ms =>
    have mem : ("timeoutMs", .nat ms) ∈ node.entries := by
      simp [entries, toJson, Json.entries, timeoutMs]
    rw [Json.Parts.optional_of_mem node.distinct_entries mem]
    exact Json.Decode.nullable_nat (timeoutMs ▸ small)

theorem decode_toJson (legible : node.Of Binary64.Legible) :
    decode node.toJson = .ok node.unsigned := by
  have required {name : String} {json : Json} (place : Nat) (mem : (name, json) ∈ node.entries) :
      (Json.Parts.named node.entries).required place name Json.Decode.string =
        Json.Decode.string json :=
    Json.Parts.required_of_mem node.distinct_entries mem place _
  have unfolded : node.entries = node.toJson.entries := rfl
  have id := required 0 (show ("id", .string node.id) ∈ node.entries by
    simp [unfolded, toJson, Json.entries])
  have nodeType := required 1 (show ("type", .string node.nodeType) ∈ node.entries by
    simp [unfolded, toJson, Json.entries])
  have name := Json.Parts.optional_of_mem node.distinct_entries
    (show ("name", .optional .string node.name) ∈ node.entries by
      simp [unfolded, toJson, Json.entries]) 2 Json.Decode.string
  have config := node.config_of_entries [] Context.decode
  have parts : Json.Parts.of 5 node.toJson = .ok (.named node.entries) := rfl
  simp only [decode, parts, bind, Except.bind, id, nodeType, name, config, Json.Decode.string,
    Json.Decode.nullable_string, Context.decode_toJson legible.config,
    timeoutMs_of_entries legible.timeoutMs]
  rfl

theorem stable_toJson (legible : node.Of Binary64.Legible) : node.toJson.Stable := by
  have config := Context.stable_toJson legible.config
  have name := Json.stable_optionalText node.name
  apply Json.Stable.object
  cases timeoutMs : node.timeoutMs with
  | none => simp [config, name, Json.Stable.string]
  | some ms =>
    have small := Json.stable_nat (legible.timeoutMs ms timeoutMs)
    simp [config, name, small, Json.Stable.string]

end NodeSpec

theorem Connection.decode_toJson (c : Connection) : decode c.toJson = .ok c := by
  simp [decode, toJson, Json.Parts.of, Json.Parts.required, Json.Parts.withDefault, Json.Parts.find,
    Json.Decode.string, bind, Except.bind, pure, Except.pure]

theorem CyclePolicy.decode_toJson (policy : CyclePolicy) : decode policy.toJson = .ok policy := by
  cases policy <;> rfl

theorem WorkflowSettings.decode_toJson {settings : WorkflowSettings}
    (small : ∀ ms ∈ settings.timeoutMs, ms < UInt64.size) :
    decode settings.toJson = .ok settings := by
  have timeoutMs := Json.Decode.nullable_nat small
  have cyclePolicy : Json.Decode.nullable CyclePolicy.decode
      (Json.optional CyclePolicy.toJson settings.cyclePolicy) = .ok settings.cyclePolicy := by
    rcases settings.cyclePolicy with _ | _ | _ <;> rfl
  simp [decode, toJson, Json.Parts.of, Json.Parts.optional, Json.Parts.withDefault, Json.Parts.find,
    bind, Except.bind, pure, Except.pure, timeoutMs, cyclePolicy]

namespace Workflow

/-- Deadlines within the width of their fields, and configurations whose numbers have a property. -/
structure Of (P : Binary64 → Prop) (w : Workflow) : Prop where
  nodes : ∀ node ∈ w.nodes, node.Of P
  timeoutMs : ∀ ms ∈ w.settings.timeoutMs, ms < UInt64.size

theorem Of.mono {P Q : Binary64 → Prop} {w : Workflow} (imp : ∀ x, P x → Q x) (of : w.Of P) : w.Of Q :=
  { of with nodes := fun node mem => (of.nodes node mem).mono imp }

/-- The definition with the signs of its zeros taken off. -/
def unsigned (w : Workflow) : Workflow := { w with nodes := w.nodes.map (·.unsigned) }

@[simp] theorem unsigned_unsigned (w : Workflow) : w.unsigned.unsigned = w.unsigned := by
  simp [unsigned]

/-- Equal in every field. -/
structure Equals (w other : Workflow) : Prop where
  fields : other = { w with nodes := other.nodes }
  nodes : List.Forall₂ NodeSpec.Equals w.nodes other.nodes

variable {w : Workflow}

theorem unsigned_of_exact (exact : w.Of Binary64.Exact) : w.unsigned = w := by
  have nodes : w.nodes.map (·.unsigned) = w.nodes.map fun node => node :=
    List.map_congr_left fun node mem => NodeSpec.unsigned_of_exact (exact.nodes node mem)
  rw [unsigned, nodes, List.map_id']

theorem equals_unsigned (legible : w.Of Binary64.Legible) : w.Equals w.unsigned := by
  refine ⟨rfl, List.forall₂_map_right_iff.mpr (List.forall₂_same.mpr fun node mem => ?_)⟩
  exact NodeSpec.equals_unsigned (legible.nodes node mem)

theorem decode_toJson (legible : w.Of Binary64.Legible) (fallback : WorkflowId) :
    decode fallback w.toJson = .ok w.unsigned := by
  have nodes := Json.Decode.listOf_map fun node mem => NodeSpec.decode_toJson (legible.nodes node mem)
  have connections := Json.Decode.listOf_map fun (c : Connection) (_ : c ∈ w.connections) =>
    c.decode_toJson
  have settings := WorkflowSettings.decode_toJson legible.timeoutMs
  simp [decode, toJson, Json.Parts.of, Json.Parts.required, Json.Parts.optional,
    Json.Parts.withDefault, Json.Parts.find, bind, Except.bind, pure, Except.pure, Json.Decode.string,
    Json.Decode.nullable_string, nodes, connections, settings, unsigned]

theorem stable_toJson (legible : w.Of Binary64.Legible) : w.toJson.Stable := by
  have description := Json.stable_optionalText w.description
  have timeoutMs := Json.stable_optional fun ms mem => Json.stable_nat (legible.timeoutMs ms mem)
  have policy := Json.stable_optional fun policy (_ : policy ∈ w.settings.cyclePolicy) =>
    Json.Stable.string policy.name
  have nodes : (Json.array (w.nodes.map NodeSpec.toJson)).Stable :=
    .array (List.forall_mem_map.mpr fun node mem => NodeSpec.stable_toJson (legible.nodes node mem))
  have connections : (Json.array (w.connections.map Connection.toJson)).Stable := by
    refine .array (List.forall_mem_map.mpr fun c _ => .object ?_)
    simp [Json.Stable.string]
  have settings : w.settings.toJson.Stable := by
    refine .object ?_
    simpa using ⟨timeoutMs, policy⟩
  apply Json.Stable.object
  simp [description, nodes, connections, settings, Json.Stable.string]

end Workflow

end WorkflowEngine
