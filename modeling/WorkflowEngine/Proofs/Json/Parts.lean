import Mathlib.Data.List.Basic
import WorkflowEngine.Json.Decode

/-!
# Parts of a written structure

Where the names of an object are all different, each part is found under its name.
-/
namespace WorkflowEngine

/-- What comes of two things one after the other comes of the second, after the first. -/
theorem ok_of_bind {ε α β : Type} {first : Except ε α} {next : α → Except ε β} {b : β}
    (both : (first >>= next) = .ok b) : ∃ a, first = .ok a ∧ next a = .ok b := by
  cases first with
  | error e => cases both
  | ok a => exact ⟨a, rfl, both⟩

namespace Json

namespace Parts

/-- The names of the parts are all different. -/
def Distinct (entries : List (String × Json)) : Prop := (entries.map (·.1)).Nodup

variable {α : Type} {entries : List (String × Json)} {name : String} {json : Json}

theorem filter_of_not_mem (absent : name ∉ entries.map (·.1)) :
    entries.filter (fun entry => [name].contains entry.1) = [] := by
  rw [List.filter_eq_nil_iff]
  rintro ⟨other, part⟩ there same
  have same : other = name := by simpa using same
  subst same
  exact absent (List.mem_map_of_mem there)

theorem filter_of_mem (distinct : Distinct entries) (mem : (name, json) ∈ entries) :
    entries.filter (fun entry => [name].contains entry.1) = [(name, json)] := by
  induction entries with
  | nil => cases mem
  | cons entry entries ih =>
    obtain ⟨key, part⟩ := entry
    simp only [Distinct, List.map_cons, List.nodup_cons] at distinct
    rcases List.mem_cons.mp mem with same | mem
    · cases same
      rw [List.filter_cons, filter_of_not_mem distinct.1]
      simp
    · have other : key ≠ name := by
        rintro rfl
        exact distinct.1 (List.mem_map_of_mem mem)
      rw [List.filter_cons, ih distinct.2 mem]
      simp [other]

theorem find_of_mem (distinct : Distinct entries) (mem : (name, json) ∈ entries) (place : Nat) :
    (named entries).find place [name] = .ok (some json) := by
  simp only [find, filter_of_mem distinct mem]

theorem find_of_not_mem (absent : name ∉ entries.map (·.1)) (place : Nat) :
    (named entries).find place [name] = .ok none := by
  simp only [find, filter_of_not_mem absent]

theorem required_of_mem (distinct : Distinct entries) (mem : (name, json) ∈ entries) (place : Nat)
    (item : Decode α) : (named entries).required place name item = item json := by
  simp [required, find_of_mem distinct mem, bind, Except.bind]

theorem withDefault_of_mem (distinct : Distinct entries) (mem : (name, json) ∈ entries) (place : Nat)
    (absent : α) (item : Decode α) :
    (named entries).withDefault place [name] absent item = item json := by
  simp [withDefault, find_of_mem distinct mem, bind, Except.bind]

theorem optional_of_mem (distinct : Distinct entries) (mem : (name, json) ∈ entries) (place : Nat)
    (item : Decode α) : (named entries).optional place name item = Decode.nullable item json :=
  withDefault_of_mem distinct mem place none (Decode.nullable item)

theorem optional_of_not_mem (absent : name ∉ entries.map (·.1)) (place : Nat) (item : Decode α) :
    (named entries).optional place name item = .ok none := by
  simp [optional, withDefault, find_of_not_mem absent, bind, Except.bind, pure, Except.pure]

/-- What is read under a name is what stands under it. -/
theorem required_ok {place : Nat} {item : Decode α} {a : α} (mem : (name, json) ∈ entries)
    (reads : (named entries).required place name item = .ok a) : item json = .ok a := by
  have there : (name, json) ∈ entries.filter fun entry => [name].contains entry.1 :=
    List.mem_filter.mpr ⟨mem, by simp⟩
  obtain ⟨part, found, reads⟩ := ok_of_bind reads
  unfold find at found
  dsimp only at found
  split at found
  case h_1 none =>
    rw [none] at there
    cases there
  case h_2 only =>
    rw [only, List.mem_singleton] at there
    cases there
    cases found
    exact reads
  case h_3 => cases found

section

variable {parts : Parts} {place : Nat} {names : List String}

theorem withDefault_of_found (found : parts.find place names = .ok (some json)) (absent : α)
    (item : Decode α) : parts.withDefault place names absent item = item json := by
  rw [withDefault, found]
  rfl

theorem withDefault_of_absent (found : parts.find place names = .ok none) (absent : α)
    (item : Decode α) : parts.withDefault place names absent item = .ok absent := by
  rw [withDefault, found]
  rfl

end

end Parts

namespace Decode

theorem natBelow_nat {n bound : Nat} (below : n < bound) : natBelow bound (.nat n) = .ok n := by
  simp [natBelow, nat, below]

theorem nullable_string (part : Option String) :
    nullable string (Json.optional .string part) = .ok part := by
  cases part <;> rfl

theorem listOf_strings (items : List String) : listOf string (.strings items) = .ok items := by
  induction items with
  | nil => rfl
  | cons s items ih =>
    simp only [listOf, strings, List.map_cons, List.mapM_cons] at ih ⊢
    rw [ih]
    rfl

theorem nullable_nat {bound : Nat} {part : Option Nat} (below : ∀ n ∈ part, n < bound) :
    nullable (natBelow bound) (Json.optional .nat part) = .ok part := by
  cases part with
  | none => rfl
  | some n =>
    change (natBelow bound (.nat n)).map some = _
    rw [natBelow_nat (below n rfl)]
    rfl

/-- Items are read one by one. -/
theorem listOf_map {α β : Type} {item : Decode β} {write : α → Json} {value : α → β} {items : List α}
    (each : ∀ a ∈ items, item (write a) = .ok (value a)) :
    listOf item (.array (items.map write)) = .ok (items.map value) := by
  induction items with
  | nil => rfl
  | cons a items ih =>
    rw [List.forall_mem_cons] at each
    simp only [listOf, List.map_cons, List.mapM_cons] at ih ⊢
    rw [each.1, ih each.2]
    rfl

end Decode

end Json

end WorkflowEngine
