import WorkflowEngine.Proofs.Json.Text
import WorkflowEngine.Value.Json

/-!
# How deep a value is nested

A value is written as a tree that is nested as deep as the value.
-/
namespace WorkflowEngine

namespace Value

mutual

/-- How deep arrays and objects are nested in a value. -/
def depth : Value → Nat
  | .array items => depthItems items + 1
  | .object fields => depthFields fields + 1
  | _ => 0

def depthItems : List Value → Nat
  | [] => 0
  | item :: items => max (depth item) (depthItems items)

def depthFields : List (String × Value) → Nat
  | [] => 0
  | (_, item) :: fields => max (depth item) (depthFields fields)

end

theorem depth_numberToJson (x : Binary64) : (numberToJson x).depth = 0 := by
  unfold numberToJson
  split
  · split <;> rfl
  · split <;> rfl

mutual

theorem depth_toJson : (value : Value) → value.toJson.depth = value.depth
  | .null | .bool _ | .string _ => rfl
  | .number x => depth_numberToJson x
  | .array items => congrArg (· + 1) (depth_toJsonItems items)
  | .object fields => congrArg (· + 1) (depth_toJsonFields fields)

theorem depth_toJsonItems :
    (items : List Value) → Json.depthItems (toJsonItems items) = depthItems items
  | [] => rfl
  | item :: items => by
    rw [toJsonItems, Json.depthItems, depthItems, depth_toJson item, depth_toJsonItems items]

theorem depth_toJsonFields :
    (fields : List (String × Value)) → Json.depthEntries (toJsonFields fields) = depthFields fields
  | [] => rfl
  | (key, item) :: fields => by
    rw [toJsonFields, Json.depthEntries, depthFields, depth_toJson item, depth_toJsonFields fields]

end

end Value

end WorkflowEngine
