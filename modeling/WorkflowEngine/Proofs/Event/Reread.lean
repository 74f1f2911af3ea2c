import WorkflowEngine.Proofs.Event.Codec
import WorkflowEngine.Proofs.Json.Point
import WorkflowEngine.Proofs.Json.Recast
import WorkflowEngine.Proofs.Session.ReadBack

/-!
# Events that are read again

A client reads the text of an event as an event of the same kind with equal fields, but for two things. A
percentage is written with a point, unlike the whole numbers of a value, so that it comes back as a
neighbour where ten times the percentage has to be rounded. And a value takes up two levels more in its
event than it has itself, so that an event may be published which no client can read.
-/
namespace WorkflowEngine

namespace NodeEvent

variable {event : NodeEvent}

/-- The event with its percentage as that is read. -/
def rounded : NodeEvent → NodeEvent
  | .progress percent message => .progress percent.viaTenths message
  | event => event

/-- The event that is read of the text of an event. A percentage is rounded, and a zero in a value has no
sign. -/
def reread (event : NodeEvent) : NodeEvent := event.rounded.unsigned

theorem Of.legible (whole : event.Of Binary64.Whole) : ∀ value ∈ event.value?, value.Of Binary64.Legible :=
  fun value there => (whole.value value there).mono fun _ => Binary64.Whole.legible

theorem value?_rounded (event : NodeEvent) : event.rounded.value? = event.value? := by
  cases event <;> rfl

theorem readable_toJson (whole : event.Of Binary64.Whole) : event.toJson.Readable := by
  cases event with
  | info message => exact .object (by simp [Json.Readable.string])
  | warning message => exact .object (by simp [Json.Readable.string])
  | progress percent message =>
    have number := Json.Number.readable_whole (whole.percent percent rfl)
    have text := (Json.stable_optionalText message).readable
    exact .object (by simp [Json.Readable.string, Json.Readable.number, number, text])
  | data key value =>
    have stable := Value.stable_toJson (whole.legible value rfl)
    exact .object (by simp [Json.Readable.string, stable.readable])

/-- Nothing but a percentage is read otherwise than it was written. -/
theorem reread_toJson (whole : event.Of Binary64.Whole) : event.toJson.reread = event.rounded.toJson := by
  cases event with
  | info message => rfl
  | warning message => rfl
  | progress percent message =>
    have number := Json.Number.reread_whole (whole.percent percent rfl)
    have text := (Json.stable_optionalText message).reread
    simp [toJson, rounded, Json.reread, Json.rereadEntries, number, text]
  | data key value =>
    have stable := Value.stable_toJson (whole.legible value rfl)
    simp [toJson, rounded, Json.reread, Json.rereadEntries, stable.reread]

theorem equals_unsigned (whole : event.Of Binary64.Whole) : event.Equals event.unsigned := by
  cases event with
  | info message => rfl
  | warning message => rfl
  | progress percent message =>
    exact ⟨Binary64.equal_self (whole.percent percent rfl).legible.isNaN, rfl⟩
  | data key value => exact ⟨rfl, Value.equal_unsigned (whole.legible value rfl)⟩

/-- What is read differs from what was written in nothing but a percentage. -/
theorem equals_reread (whole : event.Of Binary64.Whole) :
    event.Equals event.reread ↔ ∀ x ∈ event.percent?, x.equal x.viaTenths = true := by
  cases event with
  | info message => simp [Equals, reread, rounded, unsigned, percent?]
  | warning message => simp [Equals, reread, rounded, unsigned, percent?]
  | progress percent message => simp [Equals, reread, rounded, unsigned, percent?]
  | data key value =>
    have same := Value.equal_unsigned (whole.legible value rfl)
    simp [Equals, reread, rounded, unsigned, percent?, same]

end NodeEvent

namespace ExecutionEvent

variable {event : ExecutionEvent}

/-- The event that is read of the text of an event. -/
def reread (event : ExecutionEvent) : ExecutionEvent := event.mapSaid .reread

/-- Without anything that a node has to say, every number is written as an integer. -/
theorem stable_toJson (fits : event.Fits) (silent : event.said? = none) : event.toJson.Stable := by
  have step (n : Nat) (there : n ∈ event.step?) :=
    Json.stable_nat ((fits.step n there).trans (by decide))
  have durationMs (n : Nat) (there : n ∈ event.durationMs?) := Json.stable_nat (fits.durationMs n there)
  cases event with
  | workflowStarted id workflowId resumed timestamp =>
    exact .object (by simp [Uuid.toJson, Timestamp.toJson, Json.Stable.string, Json.Stable.bool])
  | workflowFinished id status duration error timestamp =>
    exact .object (by simp [Uuid.toJson, ExecutionStatus.toJson, Timestamp.toJson, Json.Stable.string,
      durationMs duration rfl, Json.stable_optionalText])
  | nodeStarted id nodeId nodeType timestamp =>
    exact .object (by simp [Uuid.toJson, Timestamp.toJson, Json.Stable.string])
  | nodeCompleted id nodeId number duration timestamp =>
    exact .object (by simp [Uuid.toJson, Timestamp.toJson, Json.Stable.string, step number rfl,
      durationMs duration rfl])
  | nodePaused id nodeId number timestamp =>
    exact .object (by simp [Uuid.toJson, Timestamp.toJson, Json.Stable.string, step number rfl])
  | nodeFailed id nodeId error timestamp =>
    exact .object (by simp [Uuid.toJson, Timestamp.toJson, Json.Stable.string])
  | nodeEvent id nodeId said timestamp => cases silent

theorem readable_toJson (whole : event.Of Binary64.Whole) : event.toJson.Readable := by
  cases event with
  | nodeEvent id nodeId said timestamp =>
    have said := NodeEvent.readable_toJson (whole.said said rfl)
    exact .object (by simp [Uuid.toJson, Timestamp.toJson, Json.Readable.string, said])
  | _ => exact (stable_toJson whole.toFits rfl).readable

theorem reread_toJson (whole : event.Of Binary64.Whole) :
    event.toJson.reread = (event.mapSaid .rounded).toJson := by
  cases event with
  | nodeEvent id nodeId said timestamp =>
    have said := NodeEvent.reread_toJson (whole.said said rfl)
    simp [toJson, mapSaid, Json.reread, Json.rereadEntries, Uuid.toJson, Timestamp.toJson, said]
  | _ => exact (stable_toJson whole.toFits rfl).reread

/-- A percentage is read from the text before the parts of the event are told apart. -/
theorem decode_reread (whole : event.Of Binary64.Whole) :
    decode event.toJson.reread = .ok event.reread := by
  have legible : ∀ said ∈ (event.mapSaid .rounded).said?, ∀ value ∈ said.value?,
      value.Of Binary64.Legible := by
    cases event with
    | nodeEvent id nodeId said timestamp =>
      rintro _ ⟨⟩
      rw [NodeEvent.value?_rounded]
      exact (whole.said said rfl).legible
    | _ => exact fun said there => nomatch there
  rw [reread_toJson whole, decode_toJson (whole.toFits.mapSaid _) legible, unsigned_eq, mapSaid_mapSaid]
  rfl

theorem Of.percent (whole : event.Of Binary64.Whole) : ∀ x ∈ event.percent?, x.Whole := by
  intro x there
  obtain ⟨said, told, there⟩ := Option.bind_eq_some_iff.mp there
  exact (whole.said said told).percent x there

theorem equals_unsigned (whole : event.Of Binary64.Whole) : event.Equals event.unsigned := by
  rw [unsigned_eq, equals_mapSaid]
  exact fun said there => NodeEvent.equals_unsigned (whole.said said there)

theorem equals_reread (whole : event.Of Binary64.Whole) :
    event.Equals event.reread ↔ ∀ x ∈ event.percent?, x.equal x.viaTenths = true := by
  rw [reread, equals_mapSaid, percent?]
  cases told : event.said? with
  | none => simp
  | some said => simpa using NodeEvent.equals_reread (whole.said said told)

theorem decodeText_toJson (whole : event.Of Binary64.Whole) :
    ∀ text ∈ [event.toJson.compact, event.toJson.pretty],
      Json.decodeText decode text =
        if event.depth ≤ Json.depthLimit then .ok event.reread else .error (.text .tooDeep) := by
  rw [← depth_toJson]
  exact Json.decodeText_of_readable (readable_toJson whole) (decode_reread whole)

/-- An event with whole numbers comes back from the object it is written as with equal fields. From its text
it comes back as an event of the same kind if it is nested no deeper than a text may be, and is refused
otherwise; the fields are equal unless a percentage has been rounded, which is not so while ten times the
percentage is below `2 ^ 54`. -/
theorem read_from_wire {event : ExecutionEvent} (whole : event.Of Binary64.Whole) :
    (decode event.toJson = .ok event.unsigned ∧ event.Equals event.unsigned) ∧
    (∀ text ∈ [event.toJson.compact, event.toJson.pretty],
      Json.decodeText decode text =
        if event.depth ≤ Json.depthLimit then .ok event.reread else .error (.text .tooDeep)) ∧
    (event.Equals event.reread ↔ ∀ x ∈ event.percent?, x.equal x.viaTenths = true) ∧
    ((∀ x ∈ event.percent?, ∀ i, x.toInt? = some i → 10 * i.natAbs < 2 ^ 54) →
      event.Equals event.reread) := by
  have legible (said : NodeEvent) (there : said ∈ event.said?) := (whole.said said there).legible
  refine ⟨⟨decode_toJson whole.toFits legible, equals_unsigned whole⟩, decodeText_toJson whole,
    equals_reread whole, fun small => (equals_reread whole).mpr fun x there => ?_⟩
  have percent := whole.percent x there
  obtain ⟨i, value, -⟩ := whole.percent x there
  rw [Binary64.viaTenths_eq value (small x there i value)]
  exact Binary64.equal_self percent.legible.isNaN

namespace Sample

open FileStore.Sample (moment nested nested_of)

/-- A node has something to say. -/
def saying (said : NodeEvent) : ExecutionEvent := EventEmitter.wrap ⟨.ofNat 1, "a"⟩ said moment

theorem saying_of {P : Binary64 → Prop} {said : NodeEvent} (of : said.Of P) : (saying said).Of P where
  step := by rintro _ ⟨⟩
  durationMs := by rintro _ ⟨⟩
  timestamp := show moment.isValid = true by decide
  said := by
    rintro _ ⟨⟩
    exact of

/-- A percentage that is told while a node works. -/
def gauge (percent : Int) : NodeEvent := .progress (.ofInt percent) (some "at work")

theorem gauge_of {P : Binary64 → Prop} {percent : Int} (property : P (.ofInt percent)) :
    (gauge percent).Of P where
  percent := by
    rintro _ ⟨⟩
    exact property
  value := by rintro _ ⟨⟩

/-- A value that is nested one level deeper than the number says. -/
def path (depth : Nat) : NodeEvent := .data "path" (nested depth)

theorem path_of (P : Binary64 → Prop) (depth : Nat) : (path depth).Of P where
  percent := by rintro _ ⟨⟩
  value := by
    rintro _ ⟨⟩
    exact nested_of P depth

theorem depth_nested (depth : Nat) : (nested depth).depth = depth + 1 := by
  induction depth with
  | zero => rfl
  | succ depth ih => simp [nested, Value.depth, Value.depthFields, ih]

theorem depth_path (depth : Nat) : (saying (path depth)).depth = depth + 3 := by
  have value : (saying (path depth)).depth = (nested depth).depth + 2 := rfl
  rw [value, depth_nested]

theorem whole_fifty : (Binary64.ofInt 50).Whole := ⟨50, by decide, by decide⟩

theorem reread_gauge : (gauge 50).reread = gauge 50 := by
  have same : (Binary64.ofInt 50).viaTenths = .ofInt 50 :=
    @Binary64.viaTenths_eq _ 50 (by decide) (by decide)
  simp [gauge, NodeEvent.reread, NodeEvent.rounded, NodeEvent.unsigned, same]

theorem reread_path (depth : Nat) : (path depth).reread = path depth := by
  have same := Value.unsigned_of_exact (nested_of Binary64.Exact depth)
  simp [path, NodeEvent.reread, NodeEvent.rounded, NodeEvent.unsigned, same]

end Sample

section

open ExecutionEvent.Sample

/-- A percentage and a value come back as they were announced. -/
theorem read_from_wire_of_sayings :
    Json.decodeText decode (saying (gauge 50)).toJson.compact = .ok (saying (gauge 50)) ∧
    Json.decodeText decode (saying (path 3)).toJson.compact = .ok (saying (path 3)) := by
  have percent := (read_from_wire (saying_of (gauge_of whole_fifty))).2.1 _ List.mem_cons_self
  have value := (read_from_wire (saying_of (path_of _ 3))).2.1 _ List.mem_cons_self
  have same (said : NodeEvent) : (saying said).reread = saying said.reread := rfl
  rw [same, reread_gauge, if_pos (by decide)] at percent
  rw [same, reread_path, if_pos (by decide)] at value
  exact ⟨percent, value⟩

/-- The least whole percentage whose tenfold has to be rounded comes back as another one, and a value is
announced that no client can read, though the text of the value alone is read. -/
theorem misread_from_wire :
    ((saying (gauge 1801439850948199)).Of Binary64.Whole ∧
      ∃ back, Json.decodeText decode (saying (gauge 1801439850948199)).toJson.compact = .ok back ∧
        ¬(saying (gauge 1801439850948199)).Equals back) ∧
    ((saying (path 125)).Of Binary64.Whole ∧
      Json.read (FileStore.Sample.nested 125).toJson.compact =
        .ok (FileStore.Sample.nested 125).toJson ∧
      Json.decodeText decode (saying (path 125)).toJson.compact = .error (.text .tooDeep)) := by
  have vast : (saying (gauge 1801439850948199)).Of Binary64.Whole :=
    saying_of (gauge_of ⟨1801439850948199, by decide, by decide⟩)
  have deep : (saying (path 125)).Of Binary64.Whole := saying_of (path_of _ 125)
  have stable := Value.stable_toJson (FileStore.Sample.nested_of Binary64.Legible 125)
  have apart : ¬(Binary64.ofInt 1801439850948199).equal
      (Binary64.ofInt 1801439850948199).viaTenths = true := by decide
  refine ⟨⟨vast, (saying (gauge 1801439850948199)).reread, ?_, ?_⟩, deep, ?_, ?_⟩
  · rw [decodeText_toJson vast _ List.mem_cons_self, if_pos (by decide)]
  · rw [equals_reread vast]
    exact fun same => apart (same _ rfl)
  · rw [Json.read_compact stable, Value.depth_toJson, depth_nested, if_pos (by decide)]
  · rw [decodeText_toJson deep _ List.mem_cons_self, depth_path, if_neg (by decide)]

end

end ExecutionEvent

end WorkflowEngine
