import WorkflowEngine.Proofs.Definition.Codec
import WorkflowEngine.Proofs.Json.Recast
import WorkflowEngine.Proofs.Json.Reorder

/-!
# Other ways to write a definition

A definition may be written with its keys in another order and with unknown fields, without the fields
that say what is assumed anyway, and with the configuration of a node under its other name. Each such
change leaves what is read as it was, and so do any number of them.
-/
namespace WorkflowEngine

open Relation

namespace Connection

/-- A port may be left out where it is the default one. -/
def format : Json.Format where
  known := ["fromNodeId", "toNodeId", "fromOutput", "toInput"]
  spare name json := name ∈ ["fromOutput", "toInput"] ∧ json = .string defaultPort
  turns _ _ := False

theorem decode_of_recasts {c : Connection} {json other : Json} (recasts : format.Recasts json other)
    (reads : decode json = .ok c) : decode other = .ok c := by
  obtain ⟨alters⟩ := recasts
  obtain ⟨parts, whole, reads⟩ := ok_of_bind reads
  cases whole
  obtain ⟨fromNodeId, source, reads⟩ := ok_of_bind reads
  obtain ⟨toNodeId, target, reads⟩ := ok_of_bind reads
  obtain ⟨fromOutput, output, reads⟩ := ok_of_bind reads
  obtain ⟨toInput, input, reads⟩ := ok_of_bind reads
  have plain {name : String} (node : name ∈ ["fromNodeId", "toNodeId"]) :
      format.Suits [name] none Json.Decode.string := by
    simp only [List.mem_cons, List.not_mem_nil, or_false] at node
    rcases node with rfl | rfl <;> refine .plain ?_ ?_ ?_ <;> simp [format]
  have implied {name : String} (port : name ∈ ["fromOutput", "toInput"]) :
      format.Suits [name] (some defaultPort) Json.Decode.string := by
    simp only [List.mem_cons, List.not_mem_nil, or_false] at port
    rcases port with rfl | rfl <;> refine .implied ?_ ?_ ?_ <;> simp [format, Json.Decode.string]
  simp only [decode, Json.Parts.of, bind, Except.bind, alters.required (plain (by simp)) source,
    alters.required (plain (by simp)) target, alters.withDefault (implied (by simp)) output,
    alters.withDefault (implied (by simp)) input]
  exact reads

end Connection

namespace NodeSpec

/-- A name and a deadline may be left out where there is none, and a configuration where it is empty. The
configuration may stand under its other name and have the keys of its objects in another order. -/
def format : Json.Format where
  known := ["id", "type", "name", "data", "config", "timeoutMs"]
  spare name json := name ∈ ["name", "timeoutMs"] ∧ json = .null ∨
    name ∈ ["data", "config"] ∧ json = .object []
  turns part other := part.1 = "data" ∧ other = ("config", part.2) ∨
    part.1 ∈ ["data", "config"] ∧ other.1 = part.1 ∧ part.2.Reorders other.2

theorem names_of_turns {part other : String × Json} (turns : format.turns part other) :
    part.1 ∈ ["data", "config"] ∧ other.1 ∈ ["data", "config"] := by
  rcases turns with ⟨data, renamed⟩ | ⟨mem, same, -⟩
  · rw [data, renamed]
    simp
  · exact ⟨mem, same ▸ mem⟩

theorem suits_config : format.Suits ["data", "config"] (some ([] : Context)) Context.decode where
  known := by simp [format]
  spare := by
    intro name mem json context spare reads
    have empty : json = .object [] := by
      simp only [List.mem_cons, List.not_mem_nil, or_false] at mem
      rcases mem with rfl | rfl <;> simpa [format] using spare
    rw [empty] at reads
    cases reads
    rfl
  turns := by
    rintro ⟨name, json⟩ ⟨other, after⟩ (⟨rfl, renamed⟩ | ⟨mem, rfl, reorders⟩)
    · cases renamed
      simp
    · exact ⟨Iff.rfl, fun _ context reads => (Context.decode_of_reorders reorders).symm.trans reads⟩

theorem decode_of_recasts {node : NodeSpec} {json other : Json} (recasts : format.Recasts json other)
    (reads : decode json = .ok node) : decode other = .ok node := by
  obtain ⟨alters⟩ := recasts
  obtain ⟨parts, whole, reads⟩ := ok_of_bind reads
  cases whole
  obtain ⟨id, isId, reads⟩ := ok_of_bind reads
  obtain ⟨nodeType, isType, reads⟩ := ok_of_bind reads
  obtain ⟨name, isName, reads⟩ := ok_of_bind reads
  obtain ⟨config, isConfig, reads⟩ := ok_of_bind reads
  obtain ⟨timeoutMs, isTimeout, reads⟩ := ok_of_bind reads
  have fixed {name : String} (apart : name ∉ ["data", "config"]) :
      ∀ part other, format.turns part other → part.1 ≠ name ∧ other.1 ≠ name := by
    intro part other turns
    obtain ⟨first, second⟩ := names_of_turns turns
    exact ⟨ne_of_mem_of_not_mem first apart, ne_of_mem_of_not_mem second apart⟩
  have plain {name : String} (mem : name ∈ ["id", "type"]) :
      format.Suits [name] none Json.Decode.string := by
    simp only [List.mem_cons, List.not_mem_nil, or_false] at mem
    rcases mem with rfl | rfl <;> refine .plain ?_ ?_ (fixed ?_) <;> simp [format]
  have implied {α : Type} {name : String} (item : Json.Decode α) (mem : name ∈ ["name", "timeoutMs"]) :
      format.Suits [name] (some none) (Json.Decode.nullable item) := by
    simp only [List.mem_cons, List.not_mem_nil, or_false] at mem
    rcases mem with rfl | rfl <;> refine .implied ?_ ?_ (fixed ?_) <;>
      simp [format, Json.Decode.nullable]
  simp only [decode, Json.Parts.of, bind, Except.bind, alters.required (plain (by simp)) isId,
    alters.required (plain (by simp)) isType, alters.optional (implied _ (by simp)) isName,
    alters.withDefault suits_config isConfig, alters.optional (implied _ (by simp)) isTimeout]
  exact reads

end NodeSpec

namespace WorkflowSettings

/-- A setting may be left out where it is `null`. -/
def format : Json.Format where
  known := ["timeoutMs", "cyclePolicy"]
  spare name json := name ∈ ["timeoutMs", "cyclePolicy"] ∧ json = .null
  turns _ _ := False

theorem decode_of_recasts {settings : WorkflowSettings} {json other : Json}
    (recasts : format.Recasts json other) (reads : decode json = .ok settings) :
    decode other = .ok settings := by
  obtain ⟨alters⟩ := recasts
  obtain ⟨parts, whole, reads⟩ := ok_of_bind reads
  cases whole
  obtain ⟨timeoutMs, isTimeout, reads⟩ := ok_of_bind reads
  obtain ⟨cyclePolicy, isPolicy, reads⟩ := ok_of_bind reads
  have implied {α : Type} {name : String} (item : Json.Decode α)
      (mem : name ∈ ["timeoutMs", "cyclePolicy"]) :
      format.Suits [name] (some none) (Json.Decode.nullable item) := by
    simp only [List.mem_cons, List.not_mem_nil, or_false] at mem
    rcases mem with rfl | rfl <;> refine .implied ?_ ?_ ?_ <;> simp [format, Json.Decode.nullable]
  simp only [decode, Json.Parts.of, bind, Except.bind, alters.optional (implied _ (by simp)) isTimeout,
    alters.optional (implied _ (by simp)) isPolicy]
  exact reads

/-- Settings that override nothing: whatever is known of them is `null`. -/
def Blank (json : Json) : Prop :=
  ∃ entries, json = .object entries ∧ ∀ part ∈ entries, part.1 ∈ format.known → part.2 = .null

theorem eq_of_blank {settings : WorkflowSettings} {json : Json} (blank : Blank json)
    (reads : decode json = .ok settings) : settings = {} := by
  obtain ⟨entries, rfl, null⟩ := blank
  obtain ⟨parts, whole, reads⟩ := ok_of_bind reads
  cases whole
  obtain ⟨timeoutMs, isTimeout, reads⟩ := ok_of_bind reads
  obtain ⟨cyclePolicy, isPolicy, reads⟩ := ok_of_bind reads
  cases reads
  have none {α : Type} {name : String} {place : Nat} {item : Json.Decode α} {part : Option α}
      (known : name ∈ format.known)
      (reads : (Json.Parts.named entries).optional place name item = .ok part) : part = none :=
    Json.Parts.eq_none_of_null (fun json mem => null (name, json) mem known) reads
  rw [none (by simp [format]) isTimeout, none (by simp [format]) isPolicy]

end WorkflowSettings

namespace Workflow

/-- A name may be left out where it is empty, a description where there is none, connections where there
are none, and settings where they override nothing. A node, a connection or the settings may be written
otherwise. -/
def format : Json.Format where
  known := ["id", "name", "description", "nodes", "connections", "settings"]
  spare name json := name = "name" ∧ json = .string "" ∨ name = "description" ∧ json = .null ∨
    name = "connections" ∧ json = .array [] ∨ name = "settings" ∧ WorkflowSettings.Blank json
  turns part other := other.1 = part.1 ∧
    (part.1 = "nodes" ∧ Json.OneOf NodeSpec.format.Recasts part.2 other.2 ∨
      part.1 = "connections" ∧ Json.OneOf Connection.format.Recasts part.2 other.2 ∨
      part.1 = "settings" ∧ WorkflowSettings.format.Recasts part.2 other.2)

theorem names_of_turns {part other : String × Json} (turns : format.turns part other) :
    part.1 ∈ ["nodes", "connections", "settings"] ∧
      other.1 ∈ ["nodes", "connections", "settings"] := by
  obtain ⟨same, turns⟩ := turns
  rw [same, and_self]
  rcases turns with ⟨name, -⟩ | ⟨name, -⟩ | ⟨name, -⟩ <;> simp [name]

theorem suits_nodes : format.Suits ["nodes"] none (Json.Decode.listOf NodeSpec.decode) := by
  refine .single (by simp [format]) (by simp [format]) ?_
  rintro ⟨name, json⟩ ⟨other, after⟩ ⟨same, turns⟩
  refine ⟨by rw [← same], ?_⟩
  rintro rfl nodes reads
  simp only [String.reduceEq, true_and, false_and, or_false] at turns
  refine Json.Decode.listOf_of_oneOf ?_ turns reads
  exact fun _ _ _ => NodeSpec.decode_of_recasts

theorem suits_connections :
    format.Suits ["connections"] (some []) (Json.Decode.listOf Connection.decode) := by
  refine .single (by simp [format]) ?_ ?_
  · intro json connections spare reads
    obtain rfl : json = .array [] := by simpa [format] using spare
    cases reads
    rfl
  · rintro ⟨name, json⟩ ⟨other, after⟩ ⟨same, turns⟩
    refine ⟨by rw [← same], ?_⟩
    rintro rfl connections reads
    simp only [String.reduceEq, true_and, false_and, or_false, false_or] at turns
    refine Json.Decode.listOf_of_oneOf ?_ turns reads
    exact fun _ _ _ => Connection.decode_of_recasts

theorem suits_settings : format.Suits ["settings"] (some {}) WorkflowSettings.decode := by
  refine .single (by simp [format]) ?_ ?_
  · intro json settings spare reads
    have blank : WorkflowSettings.Blank json := by simpa [format] using spare
    rw [WorkflowSettings.eq_of_blank blank reads]
  · rintro ⟨name, json⟩ ⟨other, after⟩ ⟨same, turns⟩
    refine ⟨by rw [← same], ?_⟩
    rintro rfl settings reads
    simp only [String.reduceEq, true_and, false_and, false_or] at turns
    exact WorkflowSettings.decode_of_recasts turns reads

/-- One change in how a definition is written leaves what is read as it was. -/
theorem decode_of_recasts {w : Workflow} {fallback : WorkflowId} {json other : Json}
    (recasts : format.Recasts json other) (reads : decode fallback json = .ok w) :
    decode fallback other = .ok w := by
  obtain ⟨alters⟩ := recasts
  obtain ⟨parts, whole, reads⟩ := ok_of_bind reads
  cases whole
  obtain ⟨id, isId, reads⟩ := ok_of_bind reads
  obtain ⟨name, isName, reads⟩ := ok_of_bind reads
  obtain ⟨description, isDescription, reads⟩ := ok_of_bind reads
  obtain ⟨nodes, areNodes, reads⟩ := ok_of_bind reads
  obtain ⟨connections, areConnections, reads⟩ := ok_of_bind reads
  obtain ⟨settings, areSettings, reads⟩ := ok_of_bind reads
  have fixed {name : String} (apart : name ∉ ["nodes", "connections", "settings"]) :
      ∀ part other, format.turns part other → part.1 ≠ name ∧ other.1 ≠ name := by
    intro part other turns
    obtain ⟨first, second⟩ := names_of_turns turns
    exact ⟨ne_of_mem_of_not_mem first apart, ne_of_mem_of_not_mem second apart⟩
  have ids : format.Suits ["id"] (some fallback) Json.Decode.string := by
    refine .plain ?_ ?_ (fixed ?_) <;> simp [format]
  have names : format.Suits ["name"] (some "") Json.Decode.string := by
    refine .implied ?_ ?_ (fixed ?_) <;> simp [format, Json.Decode.string]
  have descriptions :
      format.Suits ["description"] (some none) (Json.Decode.nullable Json.Decode.string) := by
    refine .implied ?_ ?_ (fixed ?_) <;> simp [format, Json.Decode.nullable]
  simp only [decode, Json.Parts.of, bind, Except.bind, alters.withDefault ids isId,
    alters.withDefault names isName, alters.optional descriptions isDescription,
    alters.required suits_nodes areNodes, alters.withDefault suits_connections areConnections,
    alters.withDefault suits_settings areSettings]
  exact reads

end Workflow

end WorkflowEngine
