import WorkflowEngine.Definition.Codec
import WorkflowEngine.Proofs.Json.Parts

/-!
# Ids of definitions

The reader of a definition has an id at hand for one that has none. A definition with an id is the same
to every reader; of one without an id each makes another definition, and they differ in nothing else.
-/
namespace WorkflowEngine

namespace Workflow

/-- The definition in a text has an id of its own. -/
def NamesItself (text : String) : Prop :=
  ∃ json parts id, Json.read text = .ok json ∧ Json.Parts.of 6 json = .ok parts ∧
    parts.find 0 ["id"] = .ok (some id)

variable {text : String} {fallback : WorkflowId} {workflow : Workflow}

theorem decode_of_namesItself (names : NamesItself text) (fallback other : WorkflowId) :
    Json.decodeText (decode fallback) text = Json.decodeText (decode other) text := by
  obtain ⟨json, parts, id, parsed, whole, found⟩ := names
  have alike (fallback : WorkflowId) := Json.Parts.withDefault_of_found found fallback
    Json.Decode.string
  simp only [Json.decodeText, parsed, decode, whole, bind, Except.bind, alike]

theorem decode_of_nameless (nameless : ¬NamesItself text)
    (reads : Json.decodeText (decode fallback) text = .ok workflow) :
    workflow.id = fallback ∧ ∀ other : WorkflowId,
      Json.decodeText (decode other) text = .ok { workflow with id := other } := by
  cases parsed : Json.read text with
  | error cause =>
    rw [Json.decodeText, parsed] at reads
    cases reads
  | ok json =>
    simp only [Json.decodeText, parsed] at reads ⊢
    obtain ⟨parts, whole, reads⟩ := ok_of_bind reads
    obtain ⟨id, own, reads⟩ := ok_of_bind reads
    obtain ⟨part, found, given⟩ := ok_of_bind own
    cases part with
    | some id => exact absurd ⟨json, parts, id, parsed, whole, found⟩ nameless
    | none =>
      cases given
      obtain ⟨name, isName, reads⟩ := ok_of_bind reads
      obtain ⟨description, isDescription, reads⟩ := ok_of_bind reads
      obtain ⟨nodes, areNodes, reads⟩ := ok_of_bind reads
      obtain ⟨connections, areConnections, reads⟩ := ok_of_bind reads
      obtain ⟨settings, areSettings, reads⟩ := ok_of_bind reads
      cases reads
      refine ⟨rfl, fun other => ?_⟩
      simp only [decode, whole, bind, Except.bind, Json.Parts.withDefault_of_absent found other,
        isName, isDescription, areNodes, areConnections, areSettings]
      rfl

end Workflow

end WorkflowEngine
