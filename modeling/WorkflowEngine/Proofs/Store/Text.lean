import WorkflowEngine.Proofs.Execution.Codec
import WorkflowEngine.Proofs.Text.Utf8
import WorkflowEngine.Store.File

/-!
# Records in files

What the two files of an execution hold is read back, but for the signs of zeros: the header from its
file, and the checkpoints from the lines of the log, whatever texts they carry. The one condition is
that contexts are nested less deep than the reader goes, and where one is not, reading is refused.
-/
namespace WorkflowEngine

/-- A context that leaves room for the level its record puts around it. -/
def Context.Shallow (context : Context) : Prop := context.depth < Json.depthLimit

instance (context : Context) : Decidable context.Shallow :=
  inferInstanceAs (Decidable (context.depth < Json.depthLimit))

/-- The refusal of a text that is nested too deeply. -/
def StoreError.tooDeep : StoreError := .corrupt (.text .tooDeep)

namespace StoredHeader

/-- The stored header with the signs of its zeros taken off. -/
def unsigned (stored : StoredHeader) : StoredHeader := { stored with header := stored.header.unsigned }

variable {stored : StoredHeader}

theorem distinct_parts (stored : StoredHeader) :
    Json.Parts.Distinct (stored.header.entries ++ [("log_bytes", .nat stored.logBytes)]) := by
  simp [Json.Parts.Distinct, ExecutionHeader.entries]

theorem decode_toJson (legible : stored.header.Of Binary64.Legible)
    (small : stored.logBytes < UInt64.size) : decode stored.toJson = .ok stored.unsigned := by
  have distinct := stored.distinct_parts
  have header := ExecutionHeader.ofParts_entries legible distinct true
  have logBytes := Json.Parts.required_of_mem distinct
    (List.mem_append_right _ (List.mem_singleton.mpr rfl)) 12 (Json.Decode.natBelow UInt64.size)
  have parts : Json.Parts.ofObject stored.toJson =
      .ok (.named (stored.header.entries ++ [("log_bytes", .nat stored.logBytes)])) := rfl
  simp only [decode, parts, bind, Except.bind, header, logBytes, Json.Decode.natBelow_nat small]
  rfl

theorem stable_toJson (legible : stored.header.Of Binary64.Legible)
    (small : stored.logBytes < UInt64.size) : stored.toJson.Stable := by
  apply Json.Stable.object
  intro part mem
  rcases List.mem_append.mp mem with mem | mem
  · exact ExecutionHeader.stable_entries legible part mem
  · rw [List.mem_singleton.mp mem]
    exact Json.stable_nat small

theorem depth_toJson (stored : StoredHeader) :
    stored.toJson.depth = stored.header.context.depth + 1 := by
  have last : Json.depthEntries [("log_bytes", .nat stored.logBytes)] = 0 := rfl
  rw [toJson, Json.depth, Json.depthEntries_append, ExecutionHeader.depth_entries, last, Nat.max_zero]

/-- A header file is read back exactly where the context is shallow. -/
theorem decode_encode (legible : stored.header.Of Binary64.Legible)
    (small : stored.logBytes < UInt64.size) :
    Bytes.decode decode stored.encode =
      if stored.header.context.Shallow then .ok stored.unsigned else .error .tooDeep := by
  have read := Json.read_pretty (stable_toJson legible small)
  rw [depth_toJson] at read
  rw [Bytes.decode, encode, Bytes.text?_ofText]
  simp only [Json.decodeText, read]
  by_cases shallow : stored.header.context.Shallow
  · simp only [if_pos shallow, if_pos (Nat.succ_le_of_lt shallow), decode_toJson legible small]
  · simp only [if_neg shallow, if_neg fun low => shallow (Nat.lt_of_succ_le low)]
    rfl

theorem decode_of_shallow (legible : stored.header.Of Binary64.Legible)
    (small : stored.logBytes < UInt64.size) (shallow : stored.header.context.Shallow) :
    Bytes.decode decode stored.encode = .ok stored.unsigned := by
  rw [decode_encode legible small, if_pos shallow]

end StoredHeader

namespace FileStore

/-- The bytes of a log. -/
def logOf (checkpoints : List Checkpoint) : Bytes := checkpoints.flatMap line

theorem decode_line {c : Checkpoint} (legible : c.Of Binary64.Legible) :
    Bytes.decode Checkpoint.decode (Bytes.ofText c.toJson.compact) =
      if c.context.Shallow then .ok c.unsigned else .error .tooDeep := by
  have read := Json.read_compact (Checkpoint.stable_toJson legible)
  rw [Checkpoint.depth_toJson] at read
  rw [Bytes.decode, Bytes.text?_ofText]
  simp only [Json.decodeText, read]
  by_cases shallow : c.context.Shallow
  · simp only [if_pos shallow, if_pos (Nat.succ_le_of_lt shallow), Checkpoint.decode_toJson legible]
  · simp only [if_neg shallow, if_neg fun low => shallow (Nat.lt_of_succ_le low)]
    rfl

/-- A row without a line end, and the line end, are one line. -/
theorem lines_append {row : Bytes} (unbroken : 10 ∉ row) (some : row ≠ []) (rest : Bytes) :
    lines (row ++ 10 :: rest) = row :: lines rest := by
  have solid : ∀ b ∈ row, decide (b ≠ 10) = true := by
    intro b mem
    rw [decide_eq_true_eq]
    rintro rfl
    exact unbroken mem
  obtain ⟨b, row, rfl⟩ := List.exists_cons_of_ne_nil some
  rw [List.forall_mem_cons] at solid
  obtain ⟨first, others⟩ := solid
  have empty : lines (10 :: rest) = lines rest := by rw [lines, if_pos rfl]
  rw [List.cons_append, lines, if_neg (of_decide_eq_true first),
    List.takeWhile_append_of_pos others, List.dropWhile_append_of_pos others]
  simp [empty]

/-- No text in a checkpoint breaks its line. -/
theorem lines_logOf {log : List Checkpoint} (legible : ∀ c ∈ log, c.Of Binary64.Legible) :
    lines (logOf log) = log.map fun c => Bytes.ofText c.toJson.compact := by
  induction log with
  | nil => simp [logOf, lines]
  | cons c log ih =>
    rw [List.forall_mem_cons] at legible
    have unbroken : 10 ∉ Bytes.ofText c.toJson.compact := fun mem =>
      Json.newline_not_mem_compactChars c.toJson (Bytes.newline_mem_ofText mem)
    have some : Bytes.ofText c.toJson.compact ≠ [] := by
      obtain ⟨first, others, text⟩ := List.exists_cons_of_ne_nil
        (Json.compactChars_ne_nil (Checkpoint.stable_toJson legible.1))
      rw [Json.compact, text]
      exact Bytes.ofText_ne_nil
    rw [logOf, List.flatMap_cons, line, List.append_assoc, List.singleton_append,
      lines_append unbroken some, ← logOf, ih legible.2]
    rfl

/-- The checkpoints of a log, with the signs of their zeros taken off, are what its bytes hold. -/
theorem readLog_logOf {log : List Checkpoint} (legible : ∀ c ∈ log, c.Of Binary64.Legible)
    (start : Nat) :
    readLog (logOf log) start =
      if ∀ c ∈ log, c.context.Shallow then
        .ok ((log.map (·.unsigned)).filter (start ≤ ·.sequence))
      else .error .tooDeep := by
  have each : (log.map fun c => Bytes.ofText c.toJson.compact).mapM (Bytes.decode Checkpoint.decode) =
      if ∀ c ∈ log, c.context.Shallow then .ok (log.map (·.unsigned)) else .error .tooDeep := by
    induction log with
    | nil => rfl
    | cons c log ih =>
      rw [List.forall_mem_cons] at legible
      rw [List.map_cons, List.mapM_cons, decode_line legible.1, ih legible.2]
      simp only [List.forall_mem_cons]
      by_cases first : c.context.Shallow
      case neg =>
        simp only [first, if_false, false_and]
        rfl
      case pos =>
        simp only [first, if_true, true_and]
        by_cases others : ∀ c ∈ log, c.context.Shallow
        · rw [if_pos others, if_pos others]
          rfl
        · rw [if_neg others, if_neg others]
          rfl
  rw [readLog, lines_logOf legible, each]
  by_cases shallow : ∀ c ∈ log, c.context.Shallow
  · rw [if_pos shallow, if_pos shallow]
    rfl
  · rw [if_neg shallow, if_neg shallow]
    rfl

end FileStore

end WorkflowEngine
