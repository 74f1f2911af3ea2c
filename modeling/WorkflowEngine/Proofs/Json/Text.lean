import WorkflowEngine.Proofs.Json.Number
import WorkflowEngine.Proofs.Json.Quote

/-!
# Trees and their texts

A tree whose numbers are read comes back from either layout, with the numbers that are read, exactly when
it is nested no deeper than the reader goes; a deeper one is written all the same and then refused. Where
every number is read back, the tree is. The two layouts differ in blanks only, so both are one rendering
with its blanks given.
-/
namespace WorkflowEngine

namespace Json

theorem induct {P : Json → Prop} (null : P .null) (bool : ∀ b, P (.bool b))
    (number : ∀ n, P (.number n)) (string : ∀ s, P (.string s))
    (array : ∀ items, (∀ item ∈ items, P item) → P (.array items))
    (object : ∀ entries, (∀ entry ∈ entries, P entry.2) → P (.object entries)) (json : Json) :
    P json :=
  @Json.rec P (fun items => ∀ item ∈ items, P item) (fun entries => ∀ entry ∈ entries, P entry.2)
    (fun entry => P entry.2) null bool number string array object (by simp)
    (fun _ _ first rest => by simpa using ⟨first, rest⟩) (by simp)
    (fun _ _ first rest => List.forall_mem_cons.mpr ⟨first, rest⟩) (fun _ _ value => value) json

mutual

/-- How deep arrays and objects are nested in a tree. -/
def depth : Json → Nat
  | .array items => depthItems items + 1
  | .object entries => depthEntries entries + 1
  | _ => 0

def depthItems : List Json → Nat
  | [] => 0
  | item :: items => max (depth item) (depthItems items)

def depthEntries : List (String × Json) → Nat
  | [] => 0
  | (_, value) :: entries => max (depth value) (depthEntries entries)

end

theorem depthItems_cons_le {item : Json} {items : List Json} {d : Nat} :
    depthItems (item :: items) ≤ d ↔ item.depth ≤ d ∧ depthItems items ≤ d := by
  rw [depthItems, Nat.max_le]

theorem depthEntries_cons_le {entry : String × Json} {entries : List (String × Json)} {d : Nat} :
    depthEntries (entry :: entries) ≤ d ↔ entry.2.depth ≤ d ∧ depthEntries entries ≤ d := by
  rw [depthEntries, Nat.max_le]

theorem depthEntries_append (front back : List (String × Json)) :
    depthEntries (front ++ back) = max (depthEntries front) (depthEntries back) := by
  induction front with
  | nil => simp [depthEntries]
  | cons entry front ih => simp [depthEntries, ih, Nat.max_assoc]

/-- Every number of the tree is read back from its text. -/
inductive Stable : Json → Prop
  | null : Stable .null
  | bool (b : Bool) : Stable (.bool b)
  | number {n : Number} (stable : n.Stable) : Stable (.number n)
  | string (s : String) : Stable (.string s)
  | array {items : List Json} (each : ∀ item ∈ items, Stable item) : Stable (.array items)
  | object {entries : List (String × Json)} (each : ∀ entry ∈ entries, Stable entry.2) :
      Stable (.object entries)

mutual

/-- The tree with every number as it is read. -/
def reread : Json → Json
  | .number n => .number n.reread
  | .array items => .array (rereadItems items)
  | .object entries => .object (rereadEntries entries)
  | json => json

def rereadItems : List Json → List Json
  | [] => []
  | item :: items => reread item :: rereadItems items

def rereadEntries : List (String × Json) → List (String × Json)
  | [] => []
  | (name, value) :: entries => (name, reread value) :: rereadEntries entries

end

/-- The text of every number of the tree is read. -/
inductive Readable : Json → Prop
  | null : Readable .null
  | bool (b : Bool) : Readable (.bool b)
  | number {n : Number} (readable : n.Readable) : Readable (.number n)
  | string (s : String) : Readable (.string s)
  | array {items : List Json} (each : ∀ item ∈ items, Readable item) : Readable (.array items)
  | object {entries : List (String × Json)} (each : ∀ entry ∈ entries, Readable entry.2) :
      Readable (.object entries)

theorem rereadItems_of_forall {items : List Json} (each : ∀ item ∈ items, item.reread = item) :
    rereadItems items = items := by
  induction items with
  | nil => rfl
  | cons item items ih =>
    rw [List.forall_mem_cons] at each
    rw [rereadItems, each.1, ih each.2]

theorem rereadEntries_of_forall {entries : List (String × Json)}
    (each : ∀ entry ∈ entries, entry.2.reread = entry.2) : rereadEntries entries = entries := by
  induction entries with
  | nil => rfl
  | cons entry entries ih =>
    rw [List.forall_mem_cons] at each
    rw [rereadEntries, each.1, ih each.2]

theorem Stable.readable {json : Json} (stable : json.Stable) : json.Readable := by
  induction stable with
  | null => exact .null
  | bool b => exact .bool b
  | number stable => exact .number (Number.readable_of_read stable).1
  | string s => exact .string s
  | array each ih => exact .array ih
  | object each ih => exact .object ih

theorem Stable.reread {json : Json} (stable : json.Stable) : json.reread = json := by
  induction stable with
  | null => rfl
  | bool b => rfl
  | number stable => rw [Json.reread, (Number.readable_of_read stable).2]
  | string s => rfl
  | array each ih => rw [Json.reread, rereadItems_of_forall ih]
  | object each ih => rw [Json.reread, rereadEntries_of_forall ih]

/-- Where a rendering puts blanks: in front of what stands on a level, and behind a colon. -/
structure Layout where
  gap : Nat → List Char
  space : List Char
  blank_gap : ∀ level, ∀ c ∈ gap level, isBlank c = true
  blank_space : ∀ c ∈ space, isBlank c = true

namespace Layout

def tight : Layout := ⟨fun _ => [], [], by simp, by simp⟩

def indented : Layout where
  gap := indent
  space := [' ']
  blank_gap level c mem := by
    simp only [indent, List.mem_cons, List.mem_replicate] at mem
    rcases mem with rfl | ⟨-, rfl⟩ <;> rfl
  blank_space c mem := by
    rw [List.mem_singleton.mp mem]
    rfl

variable (layout : Layout)

mutual

def chars (level : Nat) : Json → List Char
  | .null => ['n', 'u', 'l', 'l']
  | .bool true => ['t', 'r', 'u', 'e']
  | .bool false => ['f', 'a', 'l', 's', 'e']
  | .number n => n.write
  | .string s => quote s
  | .array [] => ['[', ']']
  | .array (item :: items) =>
    '[' :: (layout.gap (level + 1) ++ (chars (level + 1) item ++ itemChars level items))
  | .object [] => ['\x7b', '\x7d']
  | .object ((name, value) :: entries) =>
    '\x7b' :: (layout.gap (level + 1) ++ (quote name ++
      ':' :: (layout.space ++ (chars (level + 1) value ++ entryChars level entries))))

/-- The items after the first, and the closing bracket. -/
def itemChars (level : Nat) : List Json → List Char
  | [] => layout.gap level ++ [']']
  | item :: items =>
    ',' :: (layout.gap (level + 1) ++ (chars (level + 1) item ++ itemChars level items))

/-- The entries after the first, and the closing brace. -/
def entryChars (level : Nat) : List (String × Json) → List Char
  | [] => layout.gap level ++ ['\x7d']
  | (name, value) :: entries =>
    ',' :: (layout.gap (level + 1) ++ (quote name ++
      ':' :: (layout.space ++ (chars (level + 1) value ++ entryChars level entries))))

end

theorem compactItems_eq {items : List Json}
    (each : ∀ item ∈ items, ∀ level, compactChars item = tight.chars level item) (level : Nat) :
    compactItems items = tight.itemChars level items := by
  induction items with
  | nil => rfl
  | cons item items ih =>
    rw [List.forall_mem_cons] at each
    rw [compactItems, itemChars, each.1 (level + 1), ih each.2]
    rfl

theorem compactEntries_eq {entries : List (String × Json)}
    (each : ∀ entry ∈ entries, ∀ level, compactChars entry.2 = tight.chars level entry.2)
    (level : Nat) : compactEntries entries = tight.entryChars level entries := by
  induction entries with
  | nil => rfl
  | cons entry entries ih =>
    rw [List.forall_mem_cons] at each
    rw [compactEntries, entryChars, each.1 (level + 1), ih each.2]
    rfl

theorem compactChars_eq (json : Json) (level : Nat) :
    compactChars json = tight.chars level json := by
  induction json using induct generalizing level with
  | null => rfl
  | bool b => cases b <;> rfl
  | number n => rfl
  | string s => rfl
  | array items each =>
    cases items with
    | nil => rfl
    | cons item items =>
      rw [List.forall_mem_cons] at each
      rw [compactChars, chars, each.1 (level + 1), compactItems_eq each.2]
      rfl
  | object entries each =>
    rcases entries with _ | ⟨⟨name, value⟩, entries⟩
    · rfl
    · rw [List.forall_mem_cons] at each
      rw [compactChars, chars, each.1 (level + 1), compactEntries_eq each.2]
      rfl

theorem prettyItems_eq {items : List Json}
    (each : ∀ item ∈ items, ∀ level, prettyChars level item = indented.chars level item)
    (level : Nat) : prettyItems level items = indented.itemChars level items := by
  induction items with
  | nil => rfl
  | cons item items ih =>
    rw [List.forall_mem_cons] at each
    rw [prettyItems, itemChars, each.1 (level + 1), ih each.2]
    rfl

theorem prettyEntries_eq {entries : List (String × Json)}
    (each : ∀ entry ∈ entries, ∀ level, prettyChars level entry.2 = indented.chars level entry.2)
    (level : Nat) : prettyEntries level entries = indented.entryChars level entries := by
  induction entries with
  | nil => rfl
  | cons entry entries ih =>
    rw [List.forall_mem_cons] at each
    rw [prettyEntries, entryChars, each.1 (level + 1), ih each.2]
    rfl

theorem prettyChars_eq (json : Json) (level : Nat) :
    prettyChars level json = indented.chars level json := by
  induction json using induct generalizing level with
  | null => rfl
  | bool b => cases b <;> rfl
  | number n => rfl
  | string s => rfl
  | array items each =>
    cases items with
    | nil => rfl
    | cons item items =>
      rw [List.forall_mem_cons] at each
      rw [prettyChars, chars, each.1 (level + 1), prettyItems_eq each.2]
      rfl
  | object entries each =>
    rcases entries with _ | ⟨⟨name, value⟩, entries⟩
    · rfl
    · rw [List.forall_mem_cons] at each
      rw [prettyChars, chars, each.1 (level + 1), prettyEntries_eq each.2]
      rfl

theorem skipBlank_append {front : List Char} (blank : ∀ c ∈ front, isBlank c = true)
    (rest : List Char) : skipBlank (front ++ rest) = skipBlank rest :=
  List.dropWhile_append_of_pos blank

theorem skipBlank_cons {c : Char} (solid : isBlank c = false) (rest : List Char) :
    skipBlank (c :: rest) = c :: rest := by
  simp [skipBlank, solid]

theorem halts_of_blank {front rest : List Char} (blank : ∀ c ∈ front, isBlank c = true)
    (halts : Halts isNumeral rest) : Halts isNumeral (front ++ rest) := by
  cases front with
  | nil => exact halts
  | cons c front =>
    apply Halts.cons
    have blank := blank c (by simp)
    simp only [isBlank, Bool.or_eq_true, beq_iff_eq] at blank
    rcases blank with ((rfl | rfl) | rfl) | rfl <;> rfl

theorem halts_itemChars (level : Nat) (items : List Json) (rest : List Char) :
    Halts isNumeral (layout.itemChars level items ++ rest) := by
  cases items with
  | nil =>
    rw [itemChars, List.append_assoc]
    exact halts_of_blank (layout.blank_gap level) (.cons rfl)
  | cons item items => exact .cons rfl

theorem halts_entryChars (level : Nat) (entries : List (String × Json)) (rest : List Char) :
    Halts isNumeral (layout.entryChars level entries ++ rest) := by
  cases entries with
  | nil =>
    rw [entryChars, List.append_assoc]
    exact halts_of_blank (layout.blank_gap level) (.cons rfl)
  | cons entry entries => exact .cons rfl

/-- A text starts with a character that is neither blank nor closes anything. -/
def Opens (cs : List Char) : Prop :=
  ∃ c rest, cs = c :: rest ∧ isBlank c = false ∧ c ≠ ']' ∧ c ≠ '\x7d'

theorem Opens.skipBlank {cs : List Char} (opens : Opens cs) (rest : List Char) :
    skipBlank (cs ++ rest) = cs ++ rest := by
  obtain ⟨c, cs, rfl, solid, -, -⟩ := opens
  exact skipBlank_cons solid (cs ++ rest)

theorem opens_chars {json : Json} (readable : json.Readable) (level : Nat) :
    Opens (layout.chars level json) := by
  cases readable with
  | null => exact ⟨_, _, rfl, rfl, by decide, by decide⟩
  | bool b => cases b <;> exact ⟨_, _, rfl, rfl, by decide, by decide⟩
  | number readable =>
    obtain ⟨c, cs, text, starts⟩ := readable.head
    refine ⟨c, cs, text, ?_, ?_, ?_⟩
    · by_contra blank
      simp only [isBlank, Bool.not_eq_false, Bool.or_eq_true, beq_iff_eq] at blank
      rcases blank with ((rfl | rfl) | rfl) | rfl <;> exact absurd starts (by decide)
    · rintro rfl
      exact absurd starts (by decide)
    · rintro rfl
      exact absurd starts (by decide)
  | string s => exact ⟨_, _, rfl, rfl, by decide, by decide⟩
  | @array items each =>
    cases items <;> exact ⟨_, _, rfl, rfl, by decide, by decide⟩
  | @object entries each =>
    cases entries <;> exact ⟨_, _, rfl, rfl, by decide, by decide⟩

/-- The text of a tree is read as the tree with its numbers as they are read, if it is not nested too
deeply. -/
def Reads (json : Json) : Prop :=
  ∀ level fuel depth rest, 2 * (layout.chars level json).length ≤ fuel → Halts isNumeral rest →
    readValue fuel depth (layout.chars level json ++ rest) =
      if json.depth ≤ depth then .ok (json.reread, rest) else .error .tooDeep

variable {layout}

theorem readItems_chars {item : Json} {items : List Json}
    (each : ∀ json ∈ item :: items, json.Readable ∧ layout.Reads json) {level fuel : Nat} (depth : Nat)
    (rest : List Char)
    (enough : 2 * ((layout.chars (level + 1) item).length +
      (layout.itemChars level items).length) < fuel) :
    readItems fuel depth (layout.chars (level + 1) item ++ (layout.itemChars level items ++ rest)) =
      if depthItems (item :: items) ≤ depth then .ok (rereadItems (item :: items), rest)
      else .error .tooDeep := by
  obtain ⟨fuel, rfl⟩ : ∃ before, fuel = before + 1 := Nat.exists_eq_add_one.mpr (by omega)
  have first := (each item (by simp)).2 (level + 1) fuel depth _ (by omega)
    (layout.halts_itemChars level items rest)
  rw [readItems, first]
  by_cases shallow : item.depth ≤ depth
  case neg =>
    rw [if_neg shallow, if_neg fun all => shallow (depthItems_cons_le.mp all).1]
    rfl
  case pos =>
    simp only [shallow, if_true, bind, Except.bind, depthItems_cons_le, true_and]
    cases items with
    | nil =>
      simp only [itemChars, List.append_assoc, skipBlank_append (layout.blank_gap _)]
      rfl
    | cons next items =>
      have each := (List.forall_mem_cons.mp each).2
      have opens := layout.opens_chars (each next (by simp)).1 (level + 1)
      have others := @readItems_chars next items each level fuel depth rest
        (by simp only [itemChars, List.length_cons, List.length_append] at enough; omega)
      simp only [itemChars, List.cons_append, List.append_assoc, skipBlank_cons (c := ',') rfl,
        skipBlank_append (layout.blank_gap _), opens.skipBlank, others]
      by_cases more : depthItems (next :: items) ≤ depth <;> simp only [more, if_true, if_false]
      rfl

/-- An entry is read up to its value. -/
theorem readEntries_chars {entry : String × Json} {entries : List (String × Json)}
    (each : ∀ part ∈ entry :: entries, part.2.Readable ∧ layout.Reads part.2) {level fuel : Nat}
    (depth : Nat) (rest : List Char)
    (enough : 2 * ((layout.chars (level + 1) entry.2).length +
      (layout.entryChars level entries).length) < fuel) :
    readEntries fuel depth (quote entry.1 ++ ':' :: (layout.space ++
        (layout.chars (level + 1) entry.2 ++ (layout.entryChars level entries ++ rest)))) =
      if depthEntries (entry :: entries) ≤ depth then .ok (rereadEntries (entry :: entries), rest)
      else .error .tooDeep := by
  obtain ⟨fuel, rfl⟩ : ∃ before, fuel = before + 1 := Nat.exists_eq_add_one.mpr (by omega)
  obtain ⟨readable, reads⟩ := each entry (by simp)
  have opens := layout.opens_chars readable (level + 1)
  have first := reads (level + 1) fuel depth _ (by omega) (layout.halts_entryChars level entries rest)
  simp only [quote, List.cons_append, List.append_assoc, List.nil_append, readEntries,
    readString_quote, bind, Except.bind, skipBlank_cons (c := ':') rfl,
    skipBlank_append layout.blank_space, opens.skipBlank, first]
  by_cases shallow : entry.2.depth ≤ depth
  case neg =>
    rw [if_neg shallow, if_neg fun all => shallow (depthEntries_cons_le.mp all).1]
  case pos =>
    simp only [shallow, if_true, depthEntries_cons_le, true_and]
    cases entries with
    | nil =>
      simp only [entryChars, List.append_assoc, skipBlank_append (layout.blank_gap _)]
      rfl
    | cons next entries =>
      have each := (List.forall_mem_cons.mp each).2
      have others := @readEntries_chars next entries each level fuel depth rest
        (by simp only [entryChars, List.length_cons, List.length_append] at enough; omega)
      have quoted : Opens (quote next.1) := ⟨_, _, rfl, rfl, by decide, by decide⟩
      simp only [entryChars, List.cons_append, List.append_assoc, skipBlank_cons (c := ',') rfl,
        skipBlank_append (layout.blank_gap _), quoted.skipBlank, others]
      by_cases deep : depthEntries (next :: entries) ≤ depth <;> simp only [deep, if_true, if_false]
      rfl

theorem readValue_number {c : Char} (starts : (c == '-' || c.isDigit) = true)
    (fuel depth : Nat) (rest : List Char) :
    readValue (fuel + 1) depth (c :: rest) =
      (readNumber (c :: rest)).map fun read => (.number read.1, read.2) := by
  rw [readValue]
  · rw [if_pos starts]
    cases readNumber (c :: rest) <;> rfl
  all_goals
    rintro rfl
    exact absurd starts (by decide)

/-- No text is empty, so that a first step of the reader is always paid for. -/
theorem Reads.of_step {json : Json} (readable : json.Readable)
    (step : ∀ level fuel depth rest, 2 * (layout.chars level json).length ≤ fuel + 1 →
      Halts isNumeral rest → readValue (fuel + 1) depth (layout.chars level json ++ rest) =
        if json.depth ≤ depth then .ok (json.reread, rest) else .error .tooDeep) :
    layout.Reads json := by
  intro level fuel depth rest enough halts
  obtain ⟨c, cs, text, -⟩ := layout.opens_chars readable level
  obtain ⟨fuel, rfl⟩ : ∃ before, fuel = before + 1 :=
    Nat.exists_eq_add_one.mpr (by rw [text, List.length_cons] at enough; omega)
  exact step level fuel depth rest enough halts

theorem reads_of_readable {json : Json} (readable : json.Readable) : layout.Reads json := by
  induction readable with
  | null => exact .of_step .null fun _ _ _ _ _ _ => rfl
  | bool b =>
    apply Reads.of_step (.bool b)
    intro level fuel depth rest _ _
    cases b <;> rfl
  | @number n readable =>
    apply Reads.of_step (.number readable)
    intro level fuel depth rest _ halts
    obtain ⟨c, cs, text, starts⟩ := readable.head
    have read := readNumber_append halts readable
    rw [text] at read
    simp only [chars, text, List.cons_append] at read ⊢
    rw [readValue_number starts, read]
    rfl
  | string s =>
    apply Reads.of_step (.string s)
    intro level fuel depth rest _ _
    simp only [chars, quote, List.cons_append, List.append_assoc, List.nil_append, readValue,
      readString_quote]
    rfl
  | @array items each ih =>
    apply Reads.of_step (.array each)
    intro level fuel depth rest enough _
    rcases depth with _ | depth
    · cases items <;> simp [chars, readValue, Json.depth]
    rcases items with _ | ⟨item, items⟩
    · rfl
    have opens := layout.opens_chars (each item (by simp)) (level + 1)
    have read := @readItems_chars layout item items (fun json mem => ⟨each json mem, ih json mem⟩)
      level fuel depth rest
      (by simp only [chars, List.length_cons, List.length_append] at enough; omega)
    simp only [chars, List.cons_append, List.append_assoc, readValue,
      skipBlank_append (layout.blank_gap _), opens.skipBlank, Json.depth, Nat.add_le_add_iff_right]
    obtain ⟨c, cs, text, -, bracket, -⟩ := opens
    simp only [text, List.cons_append] at read ⊢
    split
    case h_1 same => exact absurd (List.cons.inj same).1 bracket
    case h_2 =>
      rw [read]
      by_cases shallow : depthItems (item :: items) ≤ depth <;>
        simp only [shallow, if_true, if_false] <;> rfl
  | @object entries each ih =>
    apply Reads.of_step (.object each)
    intro level fuel depth rest enough _
    rcases depth with _ | depth
    · rcases entries with _ | ⟨⟨name, value⟩, entries⟩ <;> simp [chars, readValue, Json.depth]
    rcases entries with _ | ⟨⟨name, value⟩, entries⟩
    · rfl
    have opens : Opens (quote name) := ⟨_, _, rfl, rfl, by decide, by decide⟩
    have read := @readEntries_chars layout (name, value) entries
      (fun part mem => ⟨each part mem, ih part mem⟩) level fuel depth rest
      (by simp only [chars, List.length_cons, List.length_append] at enough ⊢; omega)
    simp only [chars, List.cons_append, List.append_assoc, readValue,
      skipBlank_append (layout.blank_gap _), opens.skipBlank, Json.depth, Nat.add_le_add_iff_right]
    obtain ⟨c, cs, text, -, -, brace⟩ := opens
    simp only [text, List.cons_append] at read ⊢
    split
    case h_1 same => exact absurd (List.cons.inj same).1 brace
    case h_2 =>
      rw [read]
      by_cases shallow : depthEntries ((name, value) :: entries) ≤ depth <;>
        simp only [shallow, if_true, if_false] <;> rfl

/-- The text of a tree is read exactly where the tree is nested no deeper than the limit. -/
theorem readChars_chars {json : Json} (readable : json.Readable) (level : Nat) :
    readChars (layout.chars level json) =
      if json.depth ≤ depthLimit then .ok json.reread else .error .tooDeep := by
  have opens := layout.opens_chars readable level
  have read := @reads_of_readable layout json readable level (readFuel (layout.chars level json))
    depthLimit [] (by unfold readFuel; omega) .nil
  rw [List.append_nil] at read
  have start := opens.skipBlank []
  rw [List.append_nil] at start
  rw [readChars, start, read]
  by_cases shallow : json.depth ≤ depthLimit <;> simp only [shallow, if_true, if_false] <;> rfl

end Layout

theorem read_compact_of_readable {json : Json} (readable : json.Readable) :
    read json.compact = if json.depth ≤ depthLimit then .ok json.reread else .error .tooDeep := by
  rw [read, compact, String.toList_ofList, Layout.compactChars_eq json 0]
  exact Layout.readChars_chars readable 0

/-- Where every number is read back, the tree is. -/
theorem read_compact {json : Json} (stable : json.Stable) :
    read json.compact = if json.depth ≤ depthLimit then .ok json else .error .tooDeep := by
  rw [read_compact_of_readable stable.readable, stable.reread]

theorem newline_not_mem_compactItems {items : List Json}
    (each : ∀ item ∈ items, '\n' ∉ compactChars item) : '\n' ∉ compactItems items := by
  induction items with
  | nil => simp [compactItems]
  | cons item items ih =>
    rw [List.forall_mem_cons] at each
    simp [compactItems, each.1, ih each.2]

theorem newline_not_mem_compactEntries {entries : List (String × Json)}
    (each : ∀ entry ∈ entries, '\n' ∉ compactChars entry.2) : '\n' ∉ compactEntries entries := by
  induction entries with
  | nil => simp [compactEntries]
  | cons entry entries ih =>
    rw [List.forall_mem_cons] at each
    simp [compactEntries, newline_not_mem_quote, each.1, ih each.2]

/-- A compact text is a single line, whatever texts the tree holds. -/
theorem newline_not_mem_compactChars (json : Json) : '\n' ∉ compactChars json := by
  induction json using induct with
  | null => simp [compactChars]
  | bool b => cases b <;> simp [compactChars]
  | number n => exact n.newline_not_mem_write
  | string s => exact newline_not_mem_quote s
  | array items each =>
    cases items with
    | nil => simp [compactChars]
    | cons item items =>
      rw [List.forall_mem_cons] at each
      simp [compactChars, each.1, newline_not_mem_compactItems each.2]
  | object entries each =>
    rcases entries with _ | ⟨⟨name, value⟩, entries⟩
    · simp [compactChars]
    · rw [List.forall_mem_cons] at each
      simp [compactChars, newline_not_mem_quote, each.1, newline_not_mem_compactEntries each.2]

theorem compactChars_ne_nil {json : Json} (stable : json.Stable) : compactChars json ≠ [] := by
  obtain ⟨c, cs, text, -⟩ := Layout.tight.opens_chars stable.readable 0
  simp [Layout.compactChars_eq json 0, text]

theorem read_pretty_of_readable {json : Json} (readable : json.Readable) :
    read json.pretty = if json.depth ≤ depthLimit then .ok json.reread else .error .tooDeep := by
  rw [read, pretty, String.toList_ofList, Layout.prettyChars_eq json 0]
  exact Layout.readChars_chars readable 0

theorem read_pretty {json : Json} (stable : json.Stable) :
    read json.pretty = if json.depth ≤ depthLimit then .ok json else .error .tooDeep := by
  rw [read_pretty_of_readable stable.readable, stable.reread]

end Json

end WorkflowEngine
