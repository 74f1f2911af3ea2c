import WorkflowEngine.Event.Codec
import WorkflowEngine.Proofs.Execution.Codec
import WorkflowEngine.Proofs.Value.Depth

/-!
# Events and their JSON

An event whose fields hold what their written form has room for comes back from its JSON as an event of
the same kind, but for the signs of zeros in a value that a node announces. The tags are told apart from
the parts beside them by their names, on both levels.
-/
namespace WorkflowEngine

namespace NodeEvent

/-- The percentage that is announced. -/
def percent? : NodeEvent → Option Binary64
  | .progress percent _ => some percent
  | _ => none

/-- The value that is announced. -/
def value? : NodeEvent → Option Value
  | .data _ value => some value
  | _ => none

/-- The numbers of the event have a property, and the keys of its value are in order. -/
structure Of (P : Binary64 → Prop) (event : NodeEvent) : Prop where
  percent : ∀ x ∈ event.percent?, P x
  value : ∀ value ∈ event.value?, value.Of P

/-- The event with the signs of zeros taken off its value. A percentage keeps its sign. -/
def unsigned : NodeEvent → NodeEvent
  | .data key value => .data key value.unsigned
  | event => event

/-- How deep the event is nested as a tree. -/
def depth (event : NodeEvent) : Nat := (event.value?.map Value.depth).getD 0 + 1

/-- Two events are of the same kind and have equal fields, numbers compared as numbers. -/
def Equals : NodeEvent → NodeEvent → Prop
  | .progress percent message, .progress percent' message' =>
    percent.equal percent' = true ∧ message = message'
  | .data key value, .data key' value' => key = key' ∧ value.equal value' = true
  | event, other => event = other

theorem depth_toJson (event : NodeEvent) : event.toJson.depth = event.depth := by
  cases event with
  | info message => rfl
  | warning message => rfl
  | progress percent message => cases message <;> rfl
  | data key value => simp [toJson, Json.depth, Json.depthEntries, depth, value?, Value.depth_toJson]

/-- An event of a node comes back from its JSON, whether or not that was held back. -/
theorem decode_toJson {event : NodeEvent} (legible : ∀ value ∈ event.value?, value.Of Binary64.Legible)
    (heldBack : Bool) : decode heldBack event.toJson = .ok event.unsigned := by
  cases event with
  | info message => rfl
  | warning message => rfl
  | progress percent message => cases message <;> rfl
  | data key value =>
    have back := Value.ofJson_toJson (legible value rfl)
    rw [unsigned, ← back]
    rfl

end NodeEvent

namespace ExecutionEvent

/-- The moment of the event. -/
def timestamp : ExecutionEvent → Timestamp
  | workflowStarted _ _ _ timestamp => timestamp
  | workflowFinished _ _ _ _ timestamp => timestamp
  | nodeStarted _ _ _ timestamp => timestamp
  | nodeCompleted _ _ _ _ timestamp => timestamp
  | nodePaused _ _ _ timestamp => timestamp
  | nodeFailed _ _ _ timestamp => timestamp
  | nodeEvent _ _ _ timestamp => timestamp

/-- The step of a node that is told. -/
def step? : ExecutionEvent → Option Nat
  | nodeCompleted _ _ step _ _ => some step
  | nodePaused _ _ step _ => some step
  | _ => none

/-- How long something took. -/
def durationMs? : ExecutionEvent → Option Nat
  | workflowFinished _ _ durationMs _ _ => some durationMs
  | nodeCompleted _ _ _ durationMs _ => some durationMs
  | _ => none

/-- What a node has to say. -/
def said? : ExecutionEvent → Option NodeEvent
  | nodeEvent _ _ event _ => some event
  | _ => none

/-- The percentage that a node announces. -/
def percent? (event : ExecutionEvent) : Option Binary64 := event.said?.bind NodeEvent.percent?

/-- Numbers within the width of their fields, and a moment of the calendar. -/
structure Fits (event : ExecutionEvent) : Prop where
  step : ∀ n ∈ event.step?, n < UInt32.size
  durationMs : ∀ n ∈ event.durationMs?, n < UInt64.size
  timestamp : event.timestamp.isValid = true

/-- An event that fits, where the numbers that a node announces have a property. -/
structure Of (P : Binary64 → Prop) (event : ExecutionEvent) : Prop extends event.Fits where
  said : ∀ said ∈ event.said?, said.Of P

/-- The event with what a node has to say changed. -/
def mapSaid (f : NodeEvent → NodeEvent) : ExecutionEvent → ExecutionEvent
  | nodeEvent id nodeId event timestamp => nodeEvent id nodeId (f event) timestamp
  | event => event

/-- The event with the signs of zeros taken off the value of a node. -/
def unsigned : ExecutionEvent → ExecutionEvent
  | .nodeEvent id nodeId event timestamp => .nodeEvent id nodeId event.unsigned timestamp
  | event => event

/-- How deep the event is nested as a tree. -/
def depth (event : ExecutionEvent) : Nat := (event.said?.map NodeEvent.depth).getD 0 + 1

/-- Two events are of the same kind and have equal fields. -/
def Equals : ExecutionEvent → ExecutionEvent → Prop
  | nodeEvent id nodeId event timestamp, nodeEvent id' nodeId' event' timestamp' =>
    id = id' ∧ nodeId = nodeId' ∧ event.Equals event' ∧ timestamp = timestamp'
  | event, other => event = other

theorem depth_toJson (event : ExecutionEvent) : event.toJson.depth = event.depth := by
  cases event with
  | nodeEvent id nodeId event timestamp =>
    simp [toJson, Json.depth, Json.depthEntries, depth, said?, NodeEvent.depth_toJson, Uuid.toJson,
      Timestamp.toJson]
  | workflowFinished id status durationMs error timestamp => cases error <;> rfl
  | _ => rfl

theorem mapSaid_mapSaid (event : ExecutionEvent) (f g : NodeEvent → NodeEvent) :
    (event.mapSaid f).mapSaid g = event.mapSaid (g ∘ f) := by
  cases event <;> rfl

theorem unsigned_eq (event : ExecutionEvent) : event.unsigned = event.mapSaid .unsigned := by
  cases event <;> rfl

theorem Fits.mapSaid {event : ExecutionEvent} (fits : event.Fits) (f : NodeEvent → NodeEvent) :
    (event.mapSaid f).Fits := by
  cases event <;> exact ⟨fits.step, fits.durationMs, fits.timestamp⟩

theorem equals_mapSaid {event : ExecutionEvent} {f : NodeEvent → NodeEvent} :
    event.Equals (event.mapSaid f) ↔ ∀ said ∈ event.said?, said.Equals (f said) := by
  cases event <;> simp [mapSaid, Equals, said?]

/-- An event comes back from its JSON: its tag tells which parts are looked for, and each of them stands
under a name of its own. -/
theorem decode_toJson {event : ExecutionEvent} (fits : event.Fits)
    (legible : ∀ said ∈ event.said?, ∀ value ∈ said.value?, value.Of Binary64.Legible) :
    decode event.toJson = .ok event.unsigned := by
  have id := Uuid.decode_toJson
  have status := ExecutionHeader.decode_status true
  have timestamp := Timestamp.decode_toJson fits.timestamp
  have step (n : Nat) (there : n ∈ event.step?) := Json.Decode.natBelow_nat (fits.step n there)
  have durationMs (n : Nat) (there : n ∈ event.durationMs?) :=
    Json.Decode.natBelow_nat (fits.durationMs n there)
  have said (said : NodeEvent) (there : said ∈ event.said?) :=
    NodeEvent.decode_toJson (legible said there) true
  clear fits legible
  -- the kinds differ in nothing but the parts they have
  cases event <;>
    simp_all [decode, toJson, unsigned, step?, durationMs?, said?, ExecutionEvent.timestamp,
      Json.Parts.tagged, Json.Parts.atMost, Json.Parts.find, Json.Parts.required,
      Json.Parts.optionalNamed, Json.Decode.string, Json.Decode.bool, Json.Decode.nullable_string,
      bind, Except.bind, pure, Except.pure]

end ExecutionEvent

end WorkflowEngine
