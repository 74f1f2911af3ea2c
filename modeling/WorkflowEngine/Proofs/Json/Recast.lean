import Mathlib.Data.List.Perm.Basic
import Mathlib.Logic.Relation
import WorkflowEngine.Proofs.Json.Parts
import WorkflowEngine.Proofs.Json.Text

/-!
# Other ways to write a structure

The parts of a structure may stand in another order and have unknown ones among them, a part may be left
out where it says what its absence says, and a part may be written in another way. What is read of the
structure stays the same with every such change.
-/
namespace WorkflowEngine

namespace Json

/-- How a structure may be written otherwise: the names of its parts, those that may be left out with
what they then stand for, and the parts that may be written as others. -/
structure Format where
  known : List String
  spare : String → Json → Prop
  turns : String × Json → String × Json → Prop

/-- One change in how the parts of a structure are written. -/
inductive Format.Alters (format : Format) : List (String × Json) → List (String × Json) → Prop
  | reorder {entries others : List (String × Json)} (perm : entries.Perm others) :
      Alters format entries others
  | drop {front rest : List (String × Json)} {name : String} {json : Json}
      (spare : format.spare name json) : Alters format (front ++ (name, json) :: rest) (front ++ rest)
  | add {front rest : List (String × Json)} {name : String} (json : Json)
      (unknown : name ∉ format.known) : Alters format (front ++ rest) (front ++ (name, json) :: rest)
  | turn {front rest : List (String × Json)} {part other : String × Json}
      (turns : format.turns part other) : Alters format (front ++ part :: rest) (front ++ other :: rest)

/-- One change in how a structure is written as an object. -/
inductive Format.Recasts (format : Format) : Json → Json → Prop
  | object {entries others : List (String × Json)} (alters : format.Alters entries others) :
      Recasts format (.object entries) (.object others)

namespace Parts

/-- What stands under some names. -/
def under (entries : List (String × Json)) (names : List String) : List Json :=
  (entries.filter fun entry => names.contains entry.1).map (·.2)

/-- A part is read: what stands under its names, once, is read as a value, or nothing stands there and
its absence stands for the value. -/
def Gives {α : Type} (entries : List (String × Json)) (names : List String) (absent : Option α)
    (item : Decode α) (a : α) : Prop :=
  ∃ part : Option Json, under entries names = part.toList ∧
    part.elim (absent = some a) fun json => item json = .ok a

variable {α : Type} {entries others : List (String × Json)} {name : String} {names : List String}
  {place : Nat} {item : Decode α} {a : α}

theorem find_ok_iff {part : Option Json} :
    (named entries).find place names = .ok part ↔ under entries names = part.toList := by
  unfold find under
  dsimp only
  generalize (entries.filter fun entry => names.contains entry.1) = found
  rcases found with _ | ⟨⟨_, json⟩, _ | ⟨second, rest⟩⟩ <;> cases part <;> simp

/-- A part is read from what is found, or else its absence says what it is. -/
theorem gives_iff {absent : Option α} {otherwise : Except DecodeError α}
    (means : otherwise = .ok a ↔ absent = some a) :
    Gives entries names absent item a ↔
      ((named entries).find place names >>= fun part => part.elim otherwise item) = .ok a := by
  constructor
  · rintro ⟨part, found, reads⟩
    rw [find_ok_iff.mpr found]
    cases part with
    | none => exact means.mpr reads
    | some json => exact reads
  · intro both
    obtain ⟨part, found, reads⟩ := ok_of_bind both
    refine ⟨part, find_ok_iff.mp found, ?_⟩
    cases part with
    | none => exact means.mp reads
    | some json => exact reads

theorem gives_required :
    Gives entries [name] none item a ↔ (named entries).required place name item = .ok a := by
  have same : (named entries).required place name item = ((named entries).find place [name] >>=
      fun part => part.elim (.error (.missing name)) item) := by
    refine bind_congr fun part => ?_
    cases part <;> rfl
  rw [same]
  exact gives_iff (by simp)

theorem gives_withDefault {absent : α} :
    Gives entries names (some absent) item a ↔
      (named entries).withDefault place names absent item = .ok a := by
  have same : (named entries).withDefault place names absent item =
      ((named entries).find place names >>= fun part => part.elim (.ok absent) item) := by
    refine bind_congr fun part => ?_
    cases part <;> rfl
  rw [same]
  exact gives_iff (by simp)

theorem under_append (front rest : List (String × Json)) (names : List String) :
    under (front ++ rest) names = under front names ++ under rest names := by
  simp [under]

theorem under_cons (part : String × Json) (rest : List (String × Json)) (names : List String) :
    under (part :: rest) names =
      if part.1 ∈ names then part.2 :: under rest names else under rest names := by
  by_cases mem : part.1 ∈ names <;> simp [under, mem]

theorem exists_of_mem_under {json : Json} (mem : json ∈ under entries names) :
    ∃ name ∈ names, (name, json) ∈ entries := by
  obtain ⟨⟨name, _⟩, kept, rfl⟩ := List.mem_map.mp mem
  obtain ⟨there, known⟩ := List.mem_filter.mp kept
  exact ⟨name, by simpa using known, there⟩

/-- An optional part that is `null` wherever it stands is none. -/
theorem eq_none_of_null {part : Option α} (null : ∀ json, (name, json) ∈ entries → json = .null)
    (reads : (named entries).optional place name item = .ok part) : part = none := by
  obtain ⟨found, there, reads⟩ := gives_withDefault.mpr reads
  cases found with
  | none => exact (Option.some.inj reads).symm
  | some json =>
    obtain ⟨_, mem, there⟩ := exists_of_mem_under (show json ∈ under entries [name] by simp [there])
    rw [List.mem_singleton.mp mem] at there
    rw [null json there] at reads
    cases reads
    rfl

/-- Where something stands under the names, nothing else does. -/
theorem under_split {front rest : List (String × Json)} {entry : String × Json} {part : Option Json}
    (mem : entry.1 ∈ names) (found : under (front ++ entry :: rest) names = part.toList) :
    under front names = [] ∧ under rest names = [] ∧ part = some entry.2 := by
  rw [under_append, under_cons, if_pos mem] at found
  cases part with
  | none => simp at found
  | some json =>
    obtain ⟨none, single⟩ := (List.append_eq_singleton_iff.mp found).resolve_right (by simp)
    simp_all

end Parts

/-- The format leaves a part as it is: it knows its names, leaves out only what its absence says, and
writes it otherwise only so that the same is read. -/
structure Format.Suits {α : Type} (format : Format) (names : List String) (absent : Option α)
    (item : Decode α) : Prop where
  known : ∀ name ∈ names, name ∈ format.known
  spare : ∀ name ∈ names, ∀ json a, format.spare name json → item json = .ok a → absent = some a
  turns : ∀ part other, format.turns part other → (part.1 ∈ names ↔ other.1 ∈ names) ∧
    (part.1 ∈ names → ∀ a, item part.2 = .ok a → item other.2 = .ok a)

namespace Format

variable {α : Type} {format : Format} {entries others : List (String × Json)} {name : String}
  {names : List String} {place : Nat} {item : Decode α} {a : α}

/-- A part with one name. -/
theorem Suits.single {absent : Option α} (known : name ∈ format.known)
    (spare : ∀ json a, format.spare name json → item json = .ok a → absent = some a)
    (turns : ∀ part other, format.turns part other → (part.1 = name ↔ other.1 = name) ∧
      (part.1 = name → ∀ a, item part.2 = .ok a → item other.2 = .ok a)) :
    format.Suits [name] absent item where
  known := by simpa using known
  spare := by simpa using spare
  turns := by simpa using turns

/-- A part that is neither left out nor written otherwise. -/
theorem Suits.plain {absent : Option α} (known : name ∈ format.known)
    (kept : ∀ json, ¬format.spare name json)
    (fixed : ∀ part other, format.turns part other → part.1 ≠ name ∧ other.1 ≠ name) :
    format.Suits [name] absent item := by
  refine .single known (fun json _ spare => (kept json spare).elim) fun part other turns => ?_
  obtain ⟨first, second⟩ := fixed part other turns
  simp [first, second]

/-- A part that is left out where it says what its absence says. -/
theorem Suits.implied {absent : α} (known : name ∈ format.known)
    (same : ∀ json, format.spare name json → item json = .ok absent)
    (fixed : ∀ part other, format.turns part other → part.1 ≠ name ∧ other.1 ≠ name) :
    format.Suits [name] (some absent) item := by
  refine .single known ?_ fun part other turns => ?_
  · intro json a spare reads
    rw [same json spare] at reads
    cases reads
    rfl
  · obtain ⟨first, second⟩ := fixed part other turns
    simp [first, second]

theorem Alters.gives {absent : Option α} (alters : format.Alters entries others)
    (suits : format.Suits names absent item) (gives : Parts.Gives entries names absent item a) :
    Parts.Gives others names absent item a := by
  obtain ⟨part, found, reads⟩ := gives
  cases alters with
  | reorder perm =>
    have same : (Parts.under entries names).Perm (Parts.under others names) :=
      (perm.filter _).map _
    refine ⟨part, ?_, reads⟩
    rw [found] at same
    cases part with
    | none => exact List.nil_perm.mp same
    | some json => exact (List.singleton_perm.mp same).symm
  | @drop front rest name json spare =>
    by_cases mem : name ∈ names
    · obtain ⟨before, after, rfl⟩ := Parts.under_split mem found
      refine ⟨none, ?_, suits.spare name mem json a spare reads⟩
      rw [Parts.under_append, before, after]
      rfl
    · refine ⟨part, ?_, reads⟩
      rw [← found, Parts.under_append, Parts.under_append, Parts.under_cons, if_neg mem]
  | @add front rest name json unknown =>
    have absent : name ∉ names := fun mem => unknown (suits.known name mem)
    refine ⟨part, ?_, reads⟩
    rw [← found, Parts.under_append, Parts.under_append, Parts.under_cons, if_neg absent]
  | @turn front rest entry other turns =>
    obtain ⟨both, item⟩ := suits.turns entry other turns
    by_cases mem : entry.1 ∈ names
    · obtain ⟨before, after, rfl⟩ := Parts.under_split mem found
      refine ⟨some other.2, ?_, item mem a reads⟩
      rw [Parts.under_append, Parts.under_cons, if_pos (both.mp mem), before, after]
      rfl
    · refine ⟨part, ?_, reads⟩
      rw [← found, Parts.under_append, Parts.under_append, Parts.under_cons, Parts.under_cons,
        if_neg mem, if_neg (fun there => mem (both.mpr there))]

/-- A value is read of a tree however that is recast, and of every text of such a tree. -/
def Keeps (format : Format) (item : Decode α) (json : Json) (a : α) : Prop :=
  ∀ other, Relation.ReflTransGen format.Recasts json other →
    item other = .ok a ∧ ∀ text, read text = .ok other → decodeText item text = .ok a

/-- What reads a structure the same after each change reads it the same after all. -/
theorem keeps_of_recasts
    (keeps : ∀ json other a, format.Recasts json other → item json = .ok a → item other = .ok a)
    {json : Json} (reads : item json = .ok a) : format.Keeps item json a := by
  intro other recasts
  have reads : item other = .ok a := by
    induction recasts with
    | refl => exact reads
    | tail _ last ih => exact keeps _ _ _ last ih
  refine ⟨reads, fun text parsed => ?_⟩
  rw [decodeText, parsed]
  exact reads

theorem Alters.required (alters : format.Alters entries others) (suits : format.Suits [name] none item)
    (reads : (Parts.named entries).required place name item = .ok a) :
    (Parts.named others).required place name item = .ok a :=
  Parts.gives_required.mp (alters.gives suits (Parts.gives_required.mpr reads))

theorem Alters.withDefault {absent : α} (alters : format.Alters entries others)
    (suits : format.Suits names (some absent) item)
    (reads : (Parts.named entries).withDefault place names absent item = .ok a) :
    (Parts.named others).withDefault place names absent item = .ok a :=
  Parts.gives_withDefault.mp (alters.gives suits (Parts.gives_withDefault.mpr reads))

theorem Alters.optional {part : Option α} (alters : format.Alters entries others)
    (suits : format.Suits [name] (some none) (Decode.nullable item))
    (reads : (Parts.named entries).optional place name item = .ok part) :
    (Parts.named others).optional place name item = .ok part :=
  alters.withDefault suits reads

end Format

/-- Both texts of a tree are read as the tree with its numbers as they are read, if that is not nested too
deep, and else refused. -/
theorem decodeText_of_readable {α : Type} {item : Decode α} {json : Json} {a : α}
    (readable : json.Readable) (reads : item json.reread = .ok a) :
    ∀ text ∈ [json.compact, json.pretty],
      decodeText item text = if json.depth ≤ depthLimit then .ok a else .error (.text .tooDeep) := by
  intro text mem
  have parsed : read text = if json.depth ≤ depthLimit then .ok json.reread else .error .tooDeep := by
    simp only [List.mem_cons, List.not_mem_nil, or_false] at mem
    rcases mem with rfl | rfl
    · exact read_compact_of_readable readable
    · exact read_pretty_of_readable readable
  rw [decodeText, parsed]
  by_cases shallow : json.depth ≤ depthLimit
  · rw [if_pos shallow, if_pos shallow]
    exact reads
  · rw [if_neg shallow, if_neg shallow]

/-- Where every number is read back, both texts are read as the tree is. -/
theorem decodeText_written {α : Type} {item : Decode α} {json : Json} {a : α} (stable : json.Stable)
    (reads : item json = .ok a) : ∀ text ∈ [json.compact, json.pretty],
      decodeText item text = if json.depth ≤ depthLimit then .ok a else .error (.text .tooDeep) :=
  decodeText_of_readable stable.readable (stable.reread.symm ▸ reads)

/-- What comes back of a value that is written: a value equal to it, from its tree and every text of it
however they are recast, and from the texts it is written as unless they are nested too deep. -/
structure Format.Returns {α : Type} (format : Format) (write : α → Json) (item : Decode α)
    (equals : α → α → Prop) (a back : α) : Prop where
  equals : equals a back
  keeps : format.Keeps item (write a) back
  written : ∀ text ∈ [(write a).compact, (write a).pretty],
    decodeText item text =
      if (write a).depth ≤ depthLimit then .ok back else .error (.text .tooDeep)

theorem Format.Returns.of_recasts {α : Type} {format : Format} {write : α → Json} {item : Decode α}
    {equals : α → α → Prop} {a back : α} (same : equals a back) (stable : (write a).Stable)
    (reads : item (write a) = .ok back)
    (keeps : ∀ json other b, format.Recasts json other → item json = .ok b → item other = .ok b) :
    format.Returns write item equals a back :=
  ⟨same, keeps_of_recasts keeps reads, decodeText_written stable reads⟩

/-- One item of an array is written otherwise. -/
inductive OneOf (recasts : Json → Json → Prop) : Json → Json → Prop
  | item {front rest : List Json} {json other : Json} (recast : recasts json other) :
      OneOf recasts (.array (front ++ json :: rest)) (.array (front ++ other :: rest))

theorem Decode.listOf_of_oneOf {α : Type} {item : Decode α} {recasts : Json → Json → Prop}
    (keeps : ∀ json other a, recasts json other → item json = .ok a → item other = .ok a)
    {json other : Json} (one : OneOf recasts json other) {all : List α}
    (reads : listOf item json = .ok all) : listOf item other = .ok all := by
  obtain @⟨front, rest, json, other, recast⟩ := one
  unfold listOf at reads ⊢
  dsimp only at reads ⊢
  induction front generalizing all with
  | nil =>
    rw [List.nil_append, List.mapM_cons] at reads ⊢
    obtain ⟨a, first, others⟩ := ok_of_bind reads
    rw [keeps _ _ _ recast first]
    exact others
  | cons before front ih =>
    rw [List.cons_append, List.mapM_cons] at reads ⊢
    obtain ⟨a, first, others⟩ := ok_of_bind reads
    obtain ⟨as, others, last⟩ := ok_of_bind others
    rw [first]
    change (List.mapM item (front ++ other :: rest) >>= fun as => pure (a :: as)) = _
    rw [ih others]
    exact last

end Json

end WorkflowEngine
