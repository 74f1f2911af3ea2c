import WorkflowEngine.Proofs.Json.Text

/-!
# What is sure of a text that is read

A tree may hold numbers that are not read back, or be nested too deeply, and then its text may be refused
or be read as another tree. But where it is read at all, the texts that an object begins with come back
as they are, because nothing behind them is looked at before they are told.
-/
namespace WorkflowEngine

namespace Json

/-- An entry of a text. -/
def textEntry (entry : String × String) : String × Json := (entry.1, .string entry.2)

namespace Layout

variable {layout : Layout}

/-- The entries of an object from the first name on, with the closing brace. -/
def listing (layout : Layout) (level : Nat) : List (String × Json) → List Char
  | [] => []
  | (name, value) :: entries =>
    quote name ++
      ':' :: (layout.space ++ (layout.chars (level + 1) value ++ layout.entryChars level entries))

theorem opens_quote (s : String) : Opens (quote s) := ⟨_, _, rfl, rfl, by decide, by decide⟩

theorem readValue_quote (fuel depth : Nat) (s : String) (rest : List Char) :
    readValue (fuel + 1) depth (quote s ++ rest) = .ok (.string s, rest) := by
  simp only [quote, List.cons_append, List.append_assoc, List.nil_append, readValue,
    readString_quote]
  rfl

/-- Entries are read by their first name, and then from the value on. -/
theorem readEntries_quote (fuel depth : Nat) (name : String) (rest : List Char) :
    readEntries (fuel + 1) depth (quote name ++ ':' :: (layout.space ++ rest)) = (do
      let (value, rest) ← readValue fuel depth (skipBlank rest)
      match skipBlank rest with
      | ',' :: rest =>
        let (entries, rest) ← readEntries fuel depth (skipBlank rest)
        return ((name, value) :: entries, rest)
      | '\x7d' :: rest => return ([(name, value)], rest)
      | [] => throw .unexpectedEnd
      | c :: _ => throw (.unexpectedCharacter c)) := by
  have value : skipBlank (layout.space ++ rest) = skipBlank rest :=
    skipBlank_append layout.blank_space rest
  rw [← value]
  simp only [quote, List.cons_append, List.append_assoc, List.nil_append, readEntries,
    readString_quote]
  rfl

/-- Where an entry of a text is read, it comes back, and what follows it is read next. -/
theorem readEntries_textEntry {entry : String × String} {entries read : List (String × Json)}
    {level fuel depth : Nat} {rest rest' : List Char}
    (reads : readEntries fuel depth (layout.listing level (textEntry entry :: entries) ++ rest) =
      .ok (read, rest')) :
    ∃ others, read = textEntry entry :: others ∧
      (entries ≠ [] → ∃ fuel,
        readEntries fuel depth (layout.listing level entries ++ rest) = .ok (others, rest')) := by
  rcases fuel with _ | fuel
  · cases reads
  simp only [listing, textEntry, chars, List.append_assoc, List.cons_append, readEntries_quote,
    (opens_quote _).skipBlank] at reads
  rcases fuel with _ | fuel
  · cases reads
  simp only [readValue_quote, bind, Except.bind] at reads
  rcases entries with _ | ⟨⟨name, value⟩, entries⟩
  · simp only [entryChars, List.append_assoc, skipBlank_append (layout.blank_gap _),
      List.cons_append, List.nil_append, skipBlank_cons (c := '\x7d') rfl] at reads
    cases reads
    exact ⟨[], rfl, fun some => absurd rfl some⟩
  · simp only [entryChars, List.cons_append, skipBlank_cons (c := ',') rfl, List.append_assoc,
      skipBlank_append (layout.blank_gap _), (opens_quote name).skipBlank] at reads
    split at reads
    · cases reads
    · rename_i others more
      cases reads
      refine ⟨others.1, rfl, fun _ => ⟨fuel + 1, ?_⟩⟩
      simp only [listing, List.append_assoc, List.cons_append]
      exact more

/-- Where entries are read that begin with texts, the texts come back. -/
theorem readEntries_front (front : List (String × String)) {back : List (String × Json)}
    (more : back ≠ []) {read : List (String × Json)} {level fuel depth : Nat}
    {rest rest' : List Char}
    (reads : readEntries fuel depth (layout.listing level (front.map textEntry ++ back) ++ rest) =
      .ok (read, rest')) :
    ∃ others, read = front.map textEntry ++ others := by
  induction front generalizing fuel read with
  | nil => exact ⟨read, rfl⟩
  | cons entry front ih =>
    obtain ⟨others, rfl, next⟩ := readEntries_textEntry reads
    obtain ⟨fuel, reads⟩ := next (by simp [more])
    obtain ⟨others, rfl⟩ := ih reads
    exact ⟨others, rfl⟩

/-- An object that opens with an entry is read by its entries. -/
theorem readValue_listing {level fuel depth : Nat} {entries : List (String × Json)} {rest : List Char}
    (opens : Opens (layout.listing level entries)) :
    readValue (fuel + 1) (depth + 1)
        ('\x7b' :: (layout.gap (level + 1) ++ (layout.listing level entries ++ rest))) =
      (readEntries fuel depth (layout.listing level entries ++ rest)).map
        fun read => (.object read.1, read.2) := by
  simp only [readValue, skipBlank_append (layout.blank_gap _), opens.skipBlank]
  obtain ⟨c, cs, text, -, -, brace⟩ := opens
  simp only [text, List.cons_append]
  split
  case h_1 same => exact absurd (List.cons.inj same).1 brace
  case h_2 => cases readEntries fuel depth (c :: (cs ++ rest)) <;> rfl

end Layout

/-- Where the text of an object is read that begins with texts, the texts come back. -/
theorem read_pretty_front {entry : String × String} {front : List (String × String)}
    {back : List (String × Json)} (more : back ≠ []) {json : Json}
    (reads : read (Json.object ((entry :: front).map textEntry ++ back)).pretty = .ok json) :
    ∃ others, json = .object ((entry :: front).map textEntry ++ others) := by
  have text : Layout.indented.chars 0 (.object ((entry :: front).map textEntry ++ back)) =
      '\x7b' :: (Layout.indented.gap 1 ++
        (Layout.indented.listing 0 ((entry :: front).map textEntry ++ back) ++ [])) := by
    rw [List.append_nil]
    rfl
  have opens : Layout.Opens (Layout.indented.listing 0 ((entry :: front).map textEntry ++ back)) :=
    ⟨_, _, rfl, rfl, by decide, by decide⟩
  rw [read, pretty, String.toList_ofList, Layout.prettyChars_eq _ 0, text, readChars, readFuel,
    depthLimit, Layout.skipBlank_cons rfl, Layout.readValue_listing opens] at reads
  cases entries : readEntries _ 126
      (Layout.indented.listing 0 ((entry :: front).map textEntry ++ back) ++ []) with
  | error cause =>
    rw [entries] at reads
    cases reads
  | ok read =>
    obtain ⟨others, same⟩ := Layout.readEntries_front (entry :: front) more entries
    simp only [entries, Except.map, bind, Except.bind, same] at reads
    split at reads
    · cases reads
      exact ⟨others, rfl⟩
    · cases reads

end Json

end WorkflowEngine
