import WorkflowEngine.Proofs.Definition.Codec
import WorkflowEngine.Proofs.Json.Depth
import WorkflowEngine.Proofs.Json.Recast
import WorkflowEngine.Proofs.Json.Reorder
import WorkflowEngine.Proofs.Value.Depth

/-!
# How deep a definition is nested

A definition is written no deeper than it was read from, or than one without configurations is written.
So a definition that was read from a text is written as texts that are read.
-/
namespace WorkflowEngine

theorem Fields.mem_of_mem_insert {α : Type} {key : String} {value : α} {fields : Fields α}
    {field : String × α} (mem : field ∈ insert key value fields) :
    field = (key, value) ∨ field ∈ fields := by
  induction fields with
  | nil => exact Or.inl (List.mem_singleton.mp mem)
  | cons first fields ih =>
    unfold insert at mem
    split at mem
    · exact (List.mem_cons.mp mem).imp_right (List.mem_cons_of_mem _)
    · split at mem
      · exact List.mem_cons.mp mem
      · rcases List.mem_cons.mp mem with rfl | mem
        · exact Or.inr List.mem_cons_self
        · exact (ih mem).imp_right (List.mem_cons_of_mem _)

theorem Fields.mem_of_mem_foldl {α : Type} {entries : List (String × α)} {front : Fields α}
    {field : String × α}
    (mem : field ∈ entries.foldl (fun fields entry => fields.insert entry.1 entry.2) front) :
    field ∈ front ∨ field ∈ entries := by
  induction entries generalizing front with
  | nil => exact Or.inl mem
  | cons entry entries ih =>
    rcases ih mem with mem | mem
    · rcases mem_of_mem_insert mem with rfl | mem
      · exact Or.inr List.mem_cons_self
      · exact Or.inl mem
    · exact Or.inr (List.mem_cons_of_mem _ mem)

theorem Fields.mem_of_mem_ofEntries {α : Type} {entries : List (String × α)} {field : String × α}
    (mem : field ∈ ofEntries entries) : field ∈ entries :=
  (mem_of_mem_foldl mem).resolve_left List.not_mem_nil

namespace Json

theorem depthItems_le {items : List Json} {d : Nat} :
    depthItems items ≤ d ↔ ∀ item ∈ items, item.depth ≤ d := by
  induction items with
  | nil => simp [depthItems]
  | cons item items ih => rw [depthItems_cons_le, List.forall_mem_cons, ih]

theorem depthEntries_le {entries : List (String × Json)} {d : Nat} :
    depthEntries entries ≤ d ↔ ∀ entry ∈ entries, entry.2.depth ≤ d := by
  induction entries with
  | nil => simp [depthEntries]
  | cons entry entries ih => rw [depthEntries_cons_le, List.forall_mem_cons, ih]

/-- Each item that is read is read of an item. -/
theorem Decode.exists_of_listOf {α : Type} {item : Decode α} {json : Json} {all : List α}
    (reads : listOf item json = .ok all) :
    ∃ items, json = .array items ∧ ∀ a ∈ all, ∃ part ∈ items, item part = .ok a := by
  cases json with
  | array items =>
    refine ⟨items, rfl, ?_⟩
    unfold listOf at reads
    dsimp only at reads
    induction items generalizing all with
    | nil =>
      cases reads
      simp
    | cons part items ih =>
      rw [List.mapM_cons] at reads
      obtain ⟨first, isFirst, reads⟩ := ok_of_bind reads
      obtain ⟨others, areOthers, reads⟩ := ok_of_bind reads
      cases reads
      intro a mem
      rcases List.mem_cons.mp mem with rfl | mem
      · exact ⟨part, List.mem_cons_self, isFirst⟩
      · obtain ⟨other, there, isOther⟩ := ih areOthers a mem
        exact ⟨other, List.mem_cons_of_mem _ there, isOther⟩
  | null | bool | number | string | object => cases reads

/-- A part is nested less deep than what it is a part of. -/
theorem Parts.depth_of_find {arity place : Nat} {json part : Json} {parts : Parts}
    {names : List String} (whole : Parts.of arity json = .ok parts)
    (found : parts.find place names = .ok (some part)) : part.depth < json.depth := by
  cases json with
  | object entries =>
    cases whole
    have mem : part ∈ under entries names := by simp [find_ok_iff.mp found]
    obtain ⟨name, -, there⟩ := exists_of_mem_under mem
    exact Nat.lt_succ_of_le (depthEntries_le.mp le_rfl _ there)
  | array items =>
    unfold Parts.of at whole
    dsimp only at whole
    split at whole
    · cases whole
      have mem := List.mem_of_getElem? (Except.ok.inj found)
      exact Nat.lt_succ_of_le (depthItems_le.mp le_rfl _ mem)
    · cases whole
  | null | bool | number | string => cases whole

end Json

namespace Value

/-- A value is written no deeper than it was read from. -/
theorem depth_toJson_ofJson (json : Json) : (ofJson json).toJson.depth ≤ json.depth := by
  induction json using Json.induct with
  | null | bool | string => exact Nat.le_refl 0
  | number n => exact (depth_numberToJson _).le
  | array items ih =>
    simp only [ofJson, toJson, Json.depth, toJsonItems_eq, ofJsonItems_eq, Nat.add_le_add_iff_right,
      Json.depthItems_le, List.forall_mem_map]
    exact fun item mem => (ih item mem).trans (Json.depthItems_le.mp le_rfl item mem)
  | object entries ih =>
    simp only [ofJson, toJson, Json.depth, toJsonFields_eq, ofJsonEntries_eq,
      Nat.add_le_add_iff_right, Json.depthEntries_le, List.forall_mem_map]
    intro field mem
    obtain ⟨entry, there, rfl⟩ := List.mem_map.mp (Fields.mem_of_mem_ofEntries mem)
    exact (ih entry there).trans (Json.depthEntries_le.mp le_rfl entry there)

end Value

theorem Context.depth_of_decode {json : Json} {context : Context} (reads : decode json = .ok context) :
    context.depth ≤ json.depth := by
  cases json with
  | object entries =>
    cases reads
    exact Value.depth_toJson_ofJson (.object entries)
  | null | bool | number | string | array => cases reads

theorem Json.depth_optional {α : Type} {write : α → Json} {part : Option α}
    (flat : ∀ a, (write a).depth = 0) : (Json.optional write part).depth = 0 := by
  cases part with
  | none => rfl
  | some a => exact flat a

namespace NodeSpec

theorem depth_toJson (node : NodeSpec) : node.toJson.depth = node.config.depth + 1 := by
  have name : (Json.optional .string node.name).depth = 0 := Json.depth_optional fun _ => rfl
  cases timeoutMs : node.timeoutMs <;>
    simp [toJson, timeoutMs, Json.depth, Json.depthEntries, name, Json.nat, Context.depth_toJson]

theorem depth_of_decode {node : NodeSpec} {json : Json} (reads : decode json = .ok node) :
    node.toJson.depth ≤ max json.depth 2 := by
  obtain ⟨parts, whole, reads⟩ := ok_of_bind reads
  obtain ⟨id, -, reads⟩ := ok_of_bind reads
  obtain ⟨nodeType, -, reads⟩ := ok_of_bind reads
  obtain ⟨name, -, reads⟩ := ok_of_bind reads
  obtain ⟨config, isConfig, reads⟩ := ok_of_bind reads
  obtain ⟨timeoutMs, -, reads⟩ := ok_of_bind reads
  cases reads
  rw [depth_toJson]
  obtain ⟨part, found, isConfig⟩ := ok_of_bind isConfig
  cases part with
  | none =>
    cases isConfig
    exact Nat.le_max_right json.depth 2
  | some part =>
    have above := Json.Parts.depth_of_find whole found
    have inside := Context.depth_of_decode isConfig
    change Context.depth config + 1 ≤ _
    omega

end NodeSpec

namespace Workflow

theorem depth_toJson_le {w : Workflow} {d : Nat} (deep : 2 ≤ d)
    (nodes : ∀ node ∈ w.nodes, node.toJson.depth ≤ d) : w.toJson.depth ≤ d + 2 := by
  have description : (Json.optional .string w.description).depth = 0 :=
    Json.depth_optional fun _ => rfl
  have settings : w.settings.toJson.depth = 1 := by
    have timeoutMs : (Json.optional Json.nat w.settings.timeoutMs).depth = 0 :=
      Json.depth_optional fun _ => rfl
    have policy : (Json.optional CyclePolicy.toJson w.settings.cyclePolicy).depth = 0 :=
      Json.depth_optional fun _ => rfl
    simp [WorkflowSettings.toJson, Json.depth, Json.depthEntries, timeoutMs, policy]
  have connections : Json.depthItems (w.connections.map Connection.toJson) ≤ 1 := by
    rw [Json.depthItems_le, List.forall_mem_map]
    exact fun c _ => Nat.le_refl 1
  have nodes : Json.depthItems (w.nodes.map NodeSpec.toJson) ≤ d := by
    rwa [Json.depthItems_le, List.forall_mem_map]
  simp only [toJson, Json.depth, Json.depthEntries, description, settings]
  omega

theorem depth_of_decode {w : Workflow} {fallback : WorkflowId} {json : Json}
    (reads : decode fallback json = .ok w) : w.toJson.depth ≤ max json.depth 4 := by
  obtain ⟨parts, whole, reads⟩ := ok_of_bind reads
  obtain ⟨id, -, reads⟩ := ok_of_bind reads
  obtain ⟨name, -, reads⟩ := ok_of_bind reads
  obtain ⟨description, -, reads⟩ := ok_of_bind reads
  obtain ⟨nodes, areNodes, reads⟩ := ok_of_bind reads
  obtain ⟨connections, -, reads⟩ := ok_of_bind reads
  obtain ⟨settings, -, reads⟩ := ok_of_bind reads
  cases reads
  obtain ⟨part, found, areNodes⟩ := ok_of_bind areNodes
  cases part with
  | none => cases areNodes
  | some part =>
    have above := Json.Parts.depth_of_find whole found
    obtain ⟨items, rfl, each⟩ := Json.Decode.exists_of_listOf areNodes
    rw [Json.depth] at above
    refine (depth_toJson_le (le_max_right (Json.depthItems items) 2) fun node mem => ?_).trans
      (by omega)
    obtain ⟨item, there, isNode⟩ := each node mem
    have inside := Json.depthItems_le.mp le_rfl item there
    exact (NodeSpec.depth_of_decode isNode).trans (max_le_max_right 2 inside)

end Workflow

end WorkflowEngine
