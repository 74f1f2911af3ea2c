import WorkflowEngine.Proofs.Value.Json

/-!
# Values without the signs of zeros

What is asked of a value, a context or a number, other than to be handed on, is answered alike with the
signs of zeros and without them. What is found in a context, or made of it by setting keys, is found and
made of what is left of it without these signs.
-/
namespace WorkflowEngine

namespace Fields

variable {α β : Type}

/-- The fields with a function applied to each value. -/
def mapValues (f : α → β) (fields : Fields α) : Fields β :=
  fields.map fun field => (field.1, f field.2)

variable (f : α → β) (fields : Fields α)

theorem get?_mapValues (key : String) : (fields.mapValues f).get? key = (fields.get? key).map f := by
  induction fields with
  | nil => rfl
  | cons field fields ih =>
    by_cases here : field.1 = key
    · simp [mapValues, get?, here]
    · simpa [mapValues, get?, here] using ih

theorem contains_mapValues (key : String) : (fields.mapValues f).contains key = fields.contains key := by
  rw [contains, contains, get?_mapValues, Option.isSome_map]

theorem insert_mapValues (key : String) (value : α) :
    (fields.mapValues f).insert key (f value) = (fields.insert key value).mapValues f := by
  induction fields with
  | nil => rfl
  | cons field fields ih =>
    by_cases here : key = field.1
    · simp [mapValues, insert, here]
    · by_cases before : key < field.1
      · simp [mapValues, insert, here, before]
      · simpa [mapValues, insert, here, before] using ih

theorem merge_mapValues (update : Fields α) :
    (fields.mapValues f).merge (update.mapValues f) = (fields.merge update).mapValues f := by
  induction update generalizing fields with
  | nil => rfl
  | cons entry update ih =>
    have next := ih (fields.insert entry.1 entry.2)
    rw [← insert_mapValues] at next
    exact next

theorem erase_mapValues (key : String) :
    (fields.mapValues f).erase key = (fields.erase key).mapValues f := by
  rw [erase, erase, mapValues, List.filter_map]
  rfl

end Fields

namespace Binary64

/-- What is the same of both zeros is the same of a number and of what is left of it. -/
theorem congr_unsigned {α : Type} (f : Binary64 → α) (zeros : ∀ x, x.isZero = true → f x = f (zero false))
    (x : Binary64) : f x.unsigned = f x := by
  by_cases nothing : x.isZero = true
  · rw [show x.unsigned = zero false from if_pos nothing, zeros x nothing]
  · rw [show x.unsigned = x from if_neg nothing]

theorem magnitudeBits_of_isZero {x : Binary64} (nothing : x.isZero = true) : x.magnitudeBits = 0 := by
  simpa [isZero] using nothing

@[simp] theorem isNaN_unsigned (x : Binary64) : x.unsigned.isNaN = x.isNaN := by
  refine congr_unsigned isNaN (fun x nothing => ?_) x
  rw [isNaN, isNaN, magnitudeBits_of_isZero nothing, magnitudeBits_of_isZero (x := zero false) rfl]

@[simp] theorem position_unsigned (x : Binary64) : x.unsigned.position = x.position := by
  refine congr_unsigned position (fun x nothing => ?_) x
  simp [position, magnitudeBits_of_isZero nothing, magnitudeBits_of_isZero (x := zero false) rfl]

@[simp] theorem truthy_unsigned (x : Binary64) : x.unsigned.truthy = x.truthy := by
  refine congr_unsigned truthy (fun x nothing => ?_) x
  rw [truthy, nothing]
  rfl

@[simp] theorem toCount_unsigned (x : Binary64) : x.unsigned.toCount = x.toCount := by
  refine congr_unsigned toCount (fun x nothing => ?_) x
  simp only [toCount, isNaN, isFinite, significand, exponent, magnitudeBits_of_isZero nothing,
    magnitudeBits_of_isZero (x := zero false) rfl]

@[simp] theorem compare?_unsigned (x y : Binary64) : x.unsigned.compare? y.unsigned = x.compare? y := by
  simp [compare?]

@[simp] theorem numberToJson_unsigned (x : Binary64) :
    Value.numberToJson x.unsigned = Value.numberToJson x := by
  refine congr_unsigned Value.numberToJson (fun x nothing => ?_) x
  have small : (0 : Int).natAbs < Value.wholeLimit := by decide
  simp only [Value.numberToJson, toInt?_of_isZero nothing, toInt?_of_isZero (x := zero false) rfl,
    if_pos small]

end Binary64

namespace Value

theorem unsignedItems_eq (items : List Value) : unsignedItems items = items.map unsigned := by
  induction items with
  | nil => rfl
  | cons item items ih => simp [unsignedItems, ih]

theorem unsignedFields_eq (fields : Fields Value) : unsignedFields fields = fields.mapValues unsigned := by
  induction fields with
  | nil => rfl
  | cons field fields ih => simp [unsignedFields, ih, Fields.mapValues]

@[simp] theorem toJson_unsigned (value : Value) : value.unsigned.toJson = value.toJson := by
  induction value using induct with
  | null | bool b | string s => rfl
  | number x => exact x.numberToJson_unsigned
  | array items each =>
    rw [unsigned, toJson, toJson, unsignedItems_eq, toJsonItems_eq, toJsonItems_eq, List.map_map]
    exact congrArg Json.array (List.map_congr_left each)
  | object fields each =>
    rw [unsigned, toJson, toJson, unsignedFields_eq, toJsonFields_eq, toJsonFields_eq, Fields.mapValues,
      List.map_map]
    exact congrArg Json.object
      (List.map_congr_left fun field mem => congrArg (Prod.mk field.1) (each field mem))

@[simp] theorem display_unsigned (value : Value) : value.unsigned.display = value.display := by
  cases value with
  | string s => rfl
  | _ => exact congrArg Json.compact (toJson_unsigned _)

@[simp] theorem isNull_unsigned (value : Value) : value.unsigned.isNull = value.isNull := by
  cases value <;> rfl

@[simp] theorem isTruthy_unsigned (value : Value) : value.unsigned.isTruthy = value.isTruthy := by
  cases value with
  | number x => exact x.truthy_unsigned
  | _ => rfl

@[simp] theorem asString?_unsigned (value : Value) : value.unsigned.asString? = value.asString? := by
  cases value <;> rfl

@[simp] theorem asBool?_unsigned (value : Value) : value.unsigned.asBool? = value.asBool? := by
  cases value <;> rfl

theorem asNumber?_unsigned (value : Value) :
    value.unsigned.asNumber? = value.asNumber?.map (·.unsigned) := by
  cases value <;> rfl

theorem equalItems_unsigned_unsigned {items : List Value}
    (each : ∀ item ∈ items, ∀ other : Value, item.unsigned.equal other.unsigned = item.equal other)
    (others : List Value) :
    equalItems (unsignedItems items) (unsignedItems others) = equalItems items others := by
  induction items generalizing others with
  | nil => cases others <;> rfl
  | cons item items ih =>
    rw [List.forall_mem_cons] at each
    cases others with
    | nil => rfl
    | cons other others => simp only [unsignedItems, equalItems, each.1, ih each.2]

theorem equalFields_unsigned_unsigned {fields : Fields Value}
    (each : ∀ field ∈ fields, ∀ other : Value,
      field.2.unsigned.equal other.unsigned = field.2.equal other) (others : Fields Value) :
    equalFields (unsignedFields fields) (unsignedFields others) = equalFields fields others := by
  induction fields generalizing others with
  | nil => cases others <;> rfl
  | cons field fields ih =>
    rw [List.forall_mem_cons] at each
    cases others with
    | nil => rfl
    | cons other others => simp only [unsignedFields, equalFields, each.1, ih each.2]

@[simp] theorem equal_unsigned_unsigned (value other : Value) :
    value.unsigned.equal other.unsigned = value.equal other := by
  induction value using induct generalizing other with
  | null | bool b | string s => cases other <;> rfl
  | number x =>
    cases other with
    | number y => simp [unsigned, equal, Binary64.equal]
    | _ => rfl
  | array items each =>
    cases other with
    | array others => exact equalItems_unsigned_unsigned each others
    | _ => rfl
  | object fields each =>
    cases other with
    | object others => exact equalFields_unsigned_unsigned each others
    | _ => rfl

end Value

namespace Context

variable (context : Context)

theorem unsigned_eq : context.unsigned = Fields.mapValues Value.unsigned context :=
  Value.unsignedFields_eq context

theorem get?_unsigned (key : String) :
    Fields.get? context.unsigned key = (Fields.get? context key).map Value.unsigned := by
  rw [unsigned_eq, Fields.get?_mapValues]

theorem contains_unsigned (key : String) :
    Fields.contains context.unsigned key = Fields.contains context key := by
  rw [unsigned_eq, Fields.contains_mapValues]

theorem unsigned_insert (key : String) (value : Value) :
    unsigned (Fields.insert key value context) = Fields.insert key value.unsigned context.unsigned := by
  rw [unsigned_eq, unsigned_eq, Fields.insert_mapValues]

theorem unsigned_merge (update : Context) :
    unsigned (Fields.merge context update) = Fields.merge context.unsigned update.unsigned := by
  rw [unsigned_eq, unsigned_eq, unsigned_eq, Fields.merge_mapValues]

theorem toJson_unsigned : toJson context.unsigned = toJson context :=
  Value.toJson_unsigned (.object context)

end Context

end WorkflowEngine
