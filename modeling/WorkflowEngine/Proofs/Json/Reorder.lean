import Mathlib.Data.List.Nodup
import Mathlib.Data.String.Basic
import WorkflowEngine.Execution.Codec
import WorkflowEngine.Proofs.Json.Parts

/-!
# The order of keys

Values sort the keys of objects, so that it does not count in which order a text has them, as long as
they are all different.
-/
namespace WorkflowEngine

namespace Fields

variable {α : Type}

theorem insert_comm {key other : String} (apart : key ≠ other) (value item : α) (fields : Fields α) :
    insert key value (insert other item fields) = insert other item (insert key value fields) := by
  wlog first : key < other generalizing key other value item
  · have second := (lt_or_gt_of_ne apart).resolve_left first
    exact (this apart.symm item value second).symm
  have later : ¬other < key := String.lt_asymm first
  induction fields with
  | nil => simp [insert, apart, apart.symm, first, later]
  | cons field fields ih =>
    obtain ⟨k, v⟩ := field
    rcases lt_trichotomy key k with below | rfl | above
    · have skip : key ≠ k := below.ne
      rcases lt_trichotomy other k with low | rfl | high
      · simp [insert, apart, apart.symm, first, later, skip, below, low, low.ne]
      · simp [insert, apart.symm, first, later, skip]
      · simp [insert, apart.symm, later, skip, below, high.not_gt, high.ne']
    · simp [insert, apart.symm, later]
    · have high : k < other := above.trans first
      simp [insert, above.ne', above.not_gt, high.ne', high.not_gt, ih]

/-- Where no key is there twice, the order of the entries does not count. -/
theorem ofEntries_of_perm {entries others : Fields α} (distinct : (entries.map (·.1)).Nodup)
    (perm : entries.Perm others) : ofEntries entries = ofEntries others := by
  refine perm.foldl_eq' ?_ []
  intro entry first other second fields
  by_cases same : entry = other
  · rw [same]
  · refine insert_comm (fun keys => same ?_) _ _ fields
    exact List.inj_on_of_nodup_map distinct first second keys.symm

end Fields

namespace Json

/-- The keys of one object in a tree come in another order. They are all different: of a repeated key
the last would count. -/
inductive Reorders : Json → Json → Prop
  | keys {entries others : List (String × Json)} (distinct : Parts.Distinct entries)
      (perm : entries.Perm others) : Reorders (.object entries) (.object others)
  | item {front rest : List Json} {json other : Json} (reorders : Reorders json other) :
      Reorders (.array (front ++ json :: rest)) (.array (front ++ other :: rest))
  | value {front rest : List (String × Json)} {key : String} {json other : Json}
      (reorders : Reorders json other) :
      Reorders (.object (front ++ (key, json) :: rest)) (.object (front ++ (key, other) :: rest))

end Json

namespace Value

theorem ofJsonItems_eq (items : List Json) : ofJsonItems items = items.map ofJson := by
  induction items with
  | nil => rfl
  | cons item items ih => simp [ofJsonItems, ih]

theorem ofJsonEntries_eq (entries : List (String × Json)) :
    ofJsonEntries entries = entries.map fun entry => (entry.1, ofJson entry.2) := by
  induction entries with
  | nil => rfl
  | cons entry entries ih => simp [ofJsonEntries, ih]

/-- A value does not keep the order of keys. -/
theorem ofJson_of_reorders {json other : Json} (reorders : json.Reorders other) :
    ofJson json = ofJson other := by
  induction reorders with
  | keys distinct perm =>
    rw [ofJson, ofJson, ofJsonEntries_eq, ofJsonEntries_eq]
    refine congrArg object (Fields.ofEntries_of_perm ?_ (perm.map _))
    rw [List.map_map]
    exact distinct
  | item _ ih => simp only [ofJson, ofJsonItems_eq, List.map_append, List.map_cons, ih]
  | value _ ih => simp only [ofJson, ofJsonEntries_eq, List.map_append, List.map_cons, ih]

end Value

namespace Context

/-- Neither does a context. -/
theorem decode_of_reorders {json other : Json} (reorders : json.Reorders other) :
    decode json = decode other := by
  have same := Value.ofJson_of_reorders reorders
  cases reorders with
  | keys =>
    simp only [Value.ofJson, Value.object.injEq] at same
    simp only [decode, ofJson?, same]
  | item => rfl
  | value =>
    simp only [Value.ofJson, Value.object.injEq] at same
    simp only [decode, ofJson?, same]

end Context

end WorkflowEngine
