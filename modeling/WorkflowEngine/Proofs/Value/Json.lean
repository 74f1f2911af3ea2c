import WorkflowEngine.Proofs.Json.Text
import WorkflowEngine.Proofs.Number.Whole
import WorkflowEngine.Value.Json

/-!
# Values and their JSON

A value whose numbers are read back comes back from its JSON, but for the sign of a zero, which whole
numbers do not keep and comparisons do not see. Whole numbers below `2 ^ 63` are read back; which of
the others are is left to `Json.Number.Stable`.
-/
namespace WorkflowEngine

namespace Fields

variable {α : Type}

instance (fields : Fields α) : Decidable fields.Sorted :=
  inferInstanceAs (Decidable ((fields.map (·.1)).Pairwise (· < ·)))

/-- A key above all others goes to the end. -/
theorem insert_of_above {fields : Fields α} {key : String} (value : α)
    (above : ∀ field ∈ fields, field.1 < key) : insert key value fields = fields ++ [(key, value)] := by
  induction fields with
  | nil => rfl
  | cons field fields ih =>
    rw [List.forall_mem_cons] at above
    obtain ⟨first, others⟩ := above
    have other : key ≠ field.1 := by
      rintro rfl
      exact String.lt_irrefl _ first
    have later : ¬key < field.1 := String.lt_asymm first
    rw [insert, if_neg other, if_neg later, ih others]
    rfl

theorem foldl_insert_of_sorted {front entries : Fields α} (sorted : (front ++ entries).Sorted) :
    entries.foldl (fun fields entry => fields.insert entry.1 entry.2) front = front ++ entries := by
  induction entries generalizing front with
  | nil => simp
  | cons entry entries ih =>
    have above : ∀ field ∈ front, field.1 < entry.1 := by
      simp only [Sorted, List.map_append, List.pairwise_append] at sorted
      intro field mem
      exact sorted.2.2 field.1 (List.mem_map_of_mem mem) entry.1 (by simp)
    rw [List.foldl_cons, insert_of_above entry.2 above, ih (by simpa using sorted)]
    simp

/-- Sorted entries are the fields they spell. -/
theorem ofEntries_of_sorted {entries : Fields α} (sorted : entries.Sorted) :
    ofEntries entries = entries :=
  @foldl_insert_of_sorted α [] entries sorted

end Fields

namespace Binary64

/-- A whole number below `2 ^ 53` in magnitude. -/
def Whole (x : Binary64) : Prop := ∃ i, x.toInt? = some i ∧ i.natAbs < 2 ^ 53

/-- The number is written as a JSON number that is read back. -/
def Legible (x : Binary64) : Prop := ∃ n : Json.Number, Value.numberToJson x = .number n ∧ n.Stable

theorem Whole.legible {x : Binary64} (whole : x.Whole) : x.Legible := by
  obtain ⟨i, value, small⟩ := whole
  refine ⟨.integer i, ?_, Json.Number.stable_integer (by omega) (by omega)⟩
  have below : i.natAbs < Value.wholeLimit := by
    unfold Value.wholeLimit
    omega
  simp only [Value.numberToJson, value, if_pos below]
  rfl

theorem toInt?_of_isZero {x : Binary64} (zero : x.isZero = true) : x.toInt? = some 0 := by
  have bits : x.magnitudeBits = 0 := by simpa [isZero] using zero
  have digits : x.significand = 0 := by simp [significand, bits, hiddenBit]
  simp [toInt?, isFinite, bits, digits, infinityBits, hiddenBit]

/-- What is read is the very number that was written. -/
def Exact (x : Binary64) : Prop := x.Legible ∧ x.unsigned = x

/-- What a number is written as stands for the number, but for the sign of a zero. -/
theorem toBinary64_of_numberToJson {x : Binary64} {n : Json.Number}
    (written : Value.numberToJson x = .number n) : n.toBinary64 = x.unsigned := by
  unfold Value.numberToJson at written
  split at written
  case h_1 i whole =>
    split at written
    case isTrue =>
      cases written
      exact ofInt_of_toInt? whole
    case isFalse large =>
      cases written
      rw [unsigned, if_neg]
      · rfl
      · intro zero
        rw [toInt?_of_isZero zero] at whole
        cases whole
        exact large (by decide)
  case h_2 none =>
    split at written
    case isFalse => cases written
    case isTrue =>
      cases written
      rw [unsigned, if_neg]
      · rfl
      · intro zero
        rw [toInt?_of_isZero zero] at none
        cases none

theorem Legible.isNaN {x : Binary64} (legible : x.Legible) : x.isNaN = false := by
  obtain ⟨n, written, -⟩ := legible
  by_contra nan
  have large : infinityBits < x.magnitudeBits := by simpa [Binary64.isNaN] using nan
  have infinite : x.isFinite = false := by simp [isFinite, large.le]
  simp [Value.numberToJson, toInt?, infinite] at written

theorem equal_self {x : Binary64} (number : x.isNaN = false) : x.equal x = true := by
  simp [equal, compare?, number]

/-- No comparison tells the signs of zeros apart. -/
theorem equal_unsigned {x : Binary64} (number : x.isNaN = false) : x.equal x.unsigned = true := by
  by_cases zero : x.isZero = true
  · have bits : x.magnitudeBits = 0 := by simpa [isZero] using zero
    have place : x.position = 0 := by simp [position, bits]
    have other : (Binary64.zero false).position = 0 := by decide
    have nan : (Binary64.zero false).isNaN = false := by decide
    simp [equal, compare?, unsigned, zero, number, nan, place, other]
  · simp [equal, compare?, unsigned, zero, number]

end Binary64

namespace Value

theorem induct {P : Value → Prop} (null : P .null) (bool : ∀ b, P (.bool b))
    (number : ∀ x, P (.number x)) (string : ∀ s, P (.string s))
    (array : ∀ items, (∀ item ∈ items, P item) → P (.array items))
    (object : ∀ fields, (∀ field ∈ fields, P field.2) → P (.object fields)) (value : Value) :
    P value :=
  @Value.rec P (fun items => ∀ item ∈ items, P item) (fun fields => ∀ field ∈ fields, P field.2)
    (fun field => P field.2) null bool number string array object (by simp)
    (fun _ _ first rest => List.forall_mem_cons.mpr ⟨first, rest⟩) (by simp)
    (fun _ _ first rest => List.forall_mem_cons.mpr ⟨first, rest⟩) (fun _ _ value => value) value

/-- The keys of every object are in order, and every number has a property. -/
inductive Of (P : Binary64 → Prop) : Value → Prop
  | null : Of P .null
  | bool (b : Bool) : Of P (.bool b)
  | number {x : Binary64} (property : P x) : Of P (.number x)
  | string (s : String) : Of P (.string s)
  | array {items : List Value} (each : ∀ item ∈ items, Of P item) : Of P (.array items)
  | object {fields : Fields Value} (sorted : fields.Sorted)
      (each : ∀ field ∈ fields, Of P field.2) : Of P (.object fields)

theorem Of.mono {P Q : Binary64 → Prop} (imp : ∀ x, P x → Q x) {value : Value} (of : value.Of P) :
    value.Of Q := by
  induction of with
  | null => exact .null
  | bool b => exact .bool b
  | number property => exact .number (imp _ property)
  | string s => exact .string s
  | array each ih => exact .array ih
  | object sorted each ih => exact .object sorted ih

section

variable {P : Binary64 → Prop} [DecidablePred P]

mutual

def decidableOf : (value : Value) → Decidable (value.Of P)
  | .null => isTrue .null
  | .bool b => isTrue (.bool b)
  | .number x =>
    if property : P x then isTrue (.number property)
    else isFalse fun | .number holds => property holds
  | .string s => isTrue (.string s)
  | .array items =>
    match decidableOfItems items with
    | isTrue each => isTrue (.array each)
    | isFalse fails => isFalse fun | .array each => fails each
  | .object fields =>
    if sorted : Fields.Sorted fields then
      match decidableOfFields fields with
      | isTrue each => isTrue (.object sorted each)
      | isFalse fails => isFalse fun | .object _ each => fails each
    else isFalse fun | .object holds _ => sorted holds

def decidableOfItems : (items : List Value) → Decidable (∀ item ∈ items, item.Of P)
  | [] => isTrue fun _ mem => nomatch mem
  | item :: items =>
    match decidableOf item, decidableOfItems items with
    | isTrue first, isTrue others => isTrue (List.forall_mem_cons.mpr ⟨first, others⟩)
    | isFalse fails, _ => isFalse fun each => fails (List.forall_mem_cons.mp each).1
    | _, isFalse fails => isFalse fun each => fails (List.forall_mem_cons.mp each).2

def decidableOfFields : (fields : List (String × Value)) → Decidable (∀ field ∈ fields, field.2.Of P)
  | [] => isTrue fun _ mem => nomatch mem
  | (_, item) :: fields =>
    match decidableOf item, decidableOfFields fields with
    | isTrue first, isTrue others => isTrue (List.forall_mem_cons.mpr ⟨first, others⟩)
    | isFalse fails, _ => isFalse fun each => fails (List.forall_mem_cons.mp each).1
    | _, isFalse fails => isFalse fun each => fails (List.forall_mem_cons.mp each).2

end

instance (value : Value) : Decidable (value.Of P) := decidableOf value

end

mutual

/-- The value with the signs of its zeros taken off. -/
def unsigned : Value → Value
  | .null => .null
  | .bool b => .bool b
  | .number x => .number x.unsigned
  | .string s => .string s
  | .array items => .array (unsignedItems items)
  | .object fields => .object (unsignedFields fields)

def unsignedItems : List Value → List Value
  | [] => []
  | item :: items => unsigned item :: unsignedItems items

def unsignedFields : List (String × Value) → List (String × Value)
  | [] => []
  | (key, item) :: fields => (key, unsigned item) :: unsignedFields fields

end

mutual

@[simp] theorem unsigned_unsigned : (value : Value) → value.unsigned.unsigned = value.unsigned
  | .null | .bool _ | .string _ => rfl
  | .number x => congrArg number x.unsigned_unsigned
  | .array items => congrArg array (unsigned_unsignedItems items)
  | .object fields => congrArg object (unsigned_unsignedFields fields)

theorem unsigned_unsignedItems :
    (items : List Value) → unsignedItems (unsignedItems items) = unsignedItems items
  | [] => rfl
  | item :: items => by
    simp only [unsignedItems, unsigned_unsigned item, unsigned_unsignedItems items]

theorem unsigned_unsignedFields :
    (fields : List (String × Value)) → unsignedFields (unsignedFields fields) = unsignedFields fields
  | [] => rfl
  | (key, item) :: fields => by
    simp only [unsignedFields, unsigned_unsigned item, unsigned_unsignedFields fields]

end

theorem toJsonItems_eq (items : List Value) : toJsonItems items = items.map toJson := by
  induction items with
  | nil => rfl
  | cons item items ih => simp [toJsonItems, ih]

theorem toJsonFields_eq (fields : Fields Value) :
    toJsonFields fields = fields.map fun field => (field.1, field.2.toJson) := by
  induction fields with
  | nil => rfl
  | cons field fields ih => simp [toJsonFields, ih]

theorem keys_unsignedFields (fields : Fields Value) :
    (unsignedFields fields).map (·.1) = fields.map (·.1) := by
  induction fields with
  | nil => rfl
  | cons field fields ih => simp [unsignedFields, ih]

theorem ofJsonItems_toJson {items : List Value}
    (each : ∀ item ∈ items, ofJson item.toJson = item.unsigned) :
    ofJsonItems (toJsonItems items) = unsignedItems items := by
  induction items with
  | nil => rfl
  | cons item items ih =>
    rw [List.forall_mem_cons] at each
    simp [toJsonItems, ofJsonItems, unsignedItems, each.1, ih each.2]

theorem ofJsonEntries_toJson {fields : Fields Value}
    (each : ∀ field ∈ fields, ofJson field.2.toJson = field.2.unsigned) :
    ofJsonEntries (toJsonFields fields) = unsignedFields fields := by
  induction fields with
  | nil => rfl
  | cons field fields ih =>
    rw [List.forall_mem_cons] at each
    simp [toJsonFields, ofJsonEntries, unsignedFields, each.1, ih each.2]

theorem sorted_unsignedFields {fields : Fields Value} (sorted : fields.Sorted) :
    Fields.Sorted (unsignedFields fields) := by
  rwa [Fields.Sorted, keys_unsignedFields]

/-- A value comes back from its JSON, but for the signs of zeros. -/
theorem ofJson_toJson {value : Value} (legible : value.Of Binary64.Legible) :
    ofJson value.toJson = value.unsigned := by
  induction legible with
  | null => rfl
  | bool b => rfl
  | number legible =>
    obtain ⟨n, written, -⟩ := legible
    rw [toJson, written, ofJson, Binary64.toBinary64_of_numberToJson written, unsigned]
  | string s => rfl
  | array each ih => rw [toJson, ofJson, ofJsonItems_toJson ih, unsigned]
  | object sorted each ih =>
    rw [toJson, ofJson, ofJsonEntries_toJson ih, unsigned,
      Fields.ofEntries_of_sorted (sorted_unsignedFields sorted)]

theorem stable_toJson {value : Value} (legible : value.Of Binary64.Legible) : value.toJson.Stable := by
  induction legible with
  | null => exact .null
  | bool b => exact .bool b
  | number legible =>
    obtain ⟨n, written, stable⟩ := legible
    rw [toJson, written]
    exact .number stable
  | string s => exact .string s
  | @array items each ih =>
    rw [toJson, toJsonItems_eq]
    exact .array (List.forall_mem_map.mpr ih)
  | @object fields sorted each ih =>
    rw [toJson, toJsonFields_eq]
    exact .object (List.forall_mem_map.mpr ih)

theorem equalItems_unsigned {items : List Value}
    (each : ∀ item ∈ items, item.equal item.unsigned = true) :
    equalItems items (unsignedItems items) = true := by
  induction items with
  | nil => rfl
  | cons item items ih =>
    rw [List.forall_mem_cons] at each
    simp [unsignedItems, equalItems, each.1, ih each.2]

theorem equalFields_unsigned {fields : Fields Value}
    (each : ∀ field ∈ fields, field.2.equal field.2.unsigned = true) :
    equalFields fields (unsignedFields fields) = true := by
  induction fields with
  | nil => rfl
  | cons field fields ih =>
    rw [List.forall_mem_cons] at each
    simp [unsignedFields, equalFields, each.1, ih each.2]

/-- No comparison of values tells them from what comes back. -/
theorem equal_unsigned {value : Value} (legible : value.Of Binary64.Legible) :
    value.equal value.unsigned = true := by
  induction legible with
  | null => rfl
  | bool b => simp [equal, unsigned]
  | number legible => exact Binary64.equal_unsigned legible.isNaN
  | string s => simp [equal, unsigned]
  | array each ih => exact equalItems_unsigned ih
  | object sorted each ih => exact equalFields_unsigned ih

theorem unsignedItems_of_forall {items : List Value} (each : ∀ item ∈ items, item.unsigned = item) :
    unsignedItems items = items := by
  induction items with
  | nil => rfl
  | cons item items ih =>
    rw [List.forall_mem_cons] at each
    rw [unsignedItems, each.1, ih each.2]

theorem unsignedFields_of_forall {fields : Fields Value}
    (each : ∀ field ∈ fields, field.2.unsigned = field.2) : unsignedFields fields = fields := by
  induction fields with
  | nil => rfl
  | cons field fields ih =>
    rw [List.forall_mem_cons] at each
    rw [unsignedFields, each.1, ih each.2]

/-- Without a negative zero there is no sign to take off. -/
theorem unsigned_of_exact {value : Value} (exact : value.Of Binary64.Exact) : value.unsigned = value := by
  induction exact with
  | null => rfl
  | bool b => rfl
  | number exact => rw [unsigned, exact.2]
  | string s => rfl
  | array each ih => rw [unsigned, unsignedItems_of_forall ih]
  | object sorted each ih => rw [unsigned, unsignedFields_of_forall ih]

end Value

namespace Context

/-- The context with the signs of its zeros taken off. -/
def unsigned (context : Context) : Context := Value.unsignedFields context

@[simp] theorem unsigned_unsigned (context : Context) : context.unsigned.unsigned = context.unsigned :=
  Value.unsigned_unsignedFields context

/-- Keys in order on all levels, and numbers with a property. -/
def Of (P : Binary64 → Prop) (context : Context) : Prop := (Value.object context).Of P

instance {P : Binary64 → Prop} [DecidablePred P] (context : Context) : Decidable (context.Of P) :=
  inferInstanceAs (Decidable ((Value.object context).Of P))

theorem unsigned_of_exact {context : Context} (exact : context.Of Binary64.Exact) :
    context.unsigned = context := by
  have same := Value.unsigned_of_exact exact
  rwa [Value.unsigned, Value.object.injEq] at same

theorem ofJson?_toJson {context : Context} (legible : context.Of Binary64.Legible) :
    ofJson? (toJson context) = some context.unsigned := by
  have back := Value.ofJson_toJson legible
  rw [Value.toJson, Value.ofJson, Value.unsigned, Value.object.injEq] at back
  rw [toJson, ofJson?, back]
  rfl

/-- No comparison of contexts tells them from what comes back. -/
theorem equal_unsigned {context : Context} (legible : context.Of Binary64.Legible) :
    (Value.object context).equal (.object context.unsigned) = true :=
  Value.equal_unsigned legible

theorem stable_toJson {context : Context} (legible : context.Of Binary64.Legible) :
    (toJson context).Stable := Value.stable_toJson legible

end Context

end WorkflowEngine
