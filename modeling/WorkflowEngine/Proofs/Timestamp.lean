import Mathlib.Algebra.Group.Nat.Defs
import Mathlib.Data.List.TakeWhile
import WorkflowEngine.Proofs.Text.Digits
import WorkflowEngine.Timestamp

/-!
# Moments and their texts

A moment of the calendar is read back from its text to the nanosecond, in any year that can be told.
The lenient forms of reading are not covered.
-/
namespace WorkflowEngine

namespace Timestamp

theorem trimStart_cons {c : Char} (solid : Text.isBlank c = false) (rest : List Char) :
    Text.trimStart (c :: rest) = c :: rest := by
  simp [Text.trimStart, solid]

theorem isBlank_of_isDigit {c : Char} (digit : c.isDigit = true) : Text.isBlank c = false := by
  have low : 48 ≤ c.toNat := by
    simp only [Char.isDigit, Bool.and_eq_true, decide_eq_true_eq, ge_iff_le, UInt32.le_iff_toNat_le] at digit
    exact digit.1
  have high : c.toNat ≤ 57 := by
    simp only [Char.isDigit, Bool.and_eq_true, decide_eq_true_eq, UInt32.le_iff_toNat_le] at digit
    exact digit.2
  simp [Text.isBlank, Text.blankRanges]
  omega

section Rows

variable {row : List Char} (digits : ∀ c ∈ row, c.isDigit = true) (some : row ≠ [])
include digits some

theorem trimStart_row (rest : List Char) : Text.trimStart (row ++ rest) = row ++ rest := by
  cases row with
  | nil => exact absurd rfl some
  | cons c row => exact trimStart_cons (isBlank_of_isDigit (digits c (by simp))) (row ++ rest)

/-- A row of digits is read as its number, if it is as wide as what is looked for or ends there. -/
theorem readDigits_row {width : Nat} {rest : List Char} (fits : row.length ≤ width)
    (halts : Halts Char.isDigit (rest.take (width - row.length))) :
    readDigits width (row ++ rest) = .some (Json.naturalOf row, rest) := by
  have taken : ((row ++ rest).take width).takeWhile Char.isDigit = row := by
    rw [List.take_append, List.take_of_length_le fits, halts.takeWhile_append,
      List.takeWhile_eq_self_iff.mpr digits]
  simp only [readDigits, taken, List.drop_left]

end Rows

theorem padded_ne_nil (width n : Nat) : padded (width + 1) n ≠ [] := by simp [padded]

theorem readPart_padded {n : Nat} (small : n < 100) (rest : List Char) :
    readPart 2 (padded 2 n ++ rest) = some (n, rest) := by
  have digits : ∀ c ∈ padded 2 n, c.isDigit = true := fun c mem => isDigit_padded mem
  rw [readPart, trimStart_row digits (padded_ne_nil 1 n),
    readDigits_row digits (padded_ne_nil 1 n) (by rw [length_padded]), naturalOf_padded,
    Nat.mod_eq_of_lt (Nat.lt_of_lt_of_le small (by decide))]
  rw [length_padded]
  exact .nil

theorem readMark_cons {mark : Char} (solid : Text.isBlank mark = false) (rest : List Char) :
    readMark mark (mark :: rest) = some rest := by
  simp [readMark, trimStart_cons solid]

theorem naturalOf_zeros (count : Nat) (digits : List Char) :
    Json.naturalOf (List.replicate count '0' ++ digits) = Json.naturalOf digits := by
  have zeros : (List.replicate count '0').foldl (fun n c => n * 10 + Decimal.digitValue c) 0 = 0 := by
    induction count with
    | zero => rfl
    | succ count ih => rw [List.replicate_succ, List.foldl_cons]; exact ih
  rw [Json.naturalOf, List.foldl_append, zeros, Json.naturalOf]

/-- The digits of a year outside of the years 0 to 9999. -/
def longYearDigits (year : Int) : List Char :=
  List.replicate (4 - (Nat.toDigits 10 year.natAbs).length) '0' ++ Nat.toDigits 10 year.natAbs

theorem readDigits_longYear (year : Int) (rest : List Char) :
    readDigits (longYearDigits year ++ '-' :: rest).length (longYearDigits year ++ '-' :: rest) =
      some (year.natAbs, '-' :: rest) := by
  have digits : ∀ c ∈ longYearDigits year, c.isDigit = true := by
    intro c mem
    rcases List.mem_append.mp mem with mem | mem
    · rw [(List.mem_replicate.mp mem).2]
      rfl
    · exact Json.isDigit_toDigits mem
  have some : longYearDigits year ≠ [] := by simp [longYearDigits, Nat.toDigits_ne_nil]
  rw [readDigits_row digits some (by simp), longYearDigits, naturalOf_zeros, Json.naturalOf_toDigits]
  rw [List.length_append, Nat.add_sub_cancel_left]
  exact .cons rfl

theorem readYear_yearChars (year : Int) (rest : List Char) :
    readYear (yearChars year ++ '-' :: rest) = some (year, '-' :: rest) := by
  by_cases plain : 0 ≤ year ∧ year ≤ 9999
  case pos =>
    have digits : ∀ c ∈ padded 4 year.toNat, c.isDigit = true := fun c mem => isDigit_padded mem
    have read := @readDigits_row _ digits (padded_ne_nil 3 _) 4 ('-' :: rest) (by rw [length_padded])
      (by rw [length_padded]; exact .nil)
    rw [naturalOf_padded, Nat.mod_eq_of_lt (by omega)] at read
    rw [yearChars, if_pos plain, readYear, trimStart_row digits (padded_ne_nil 3 _)]
    cases row : padded 4 year.toNat with
    | nil => exact absurd row (padded_ne_nil 3 _)
    | cons c cs =>
      have digit : c.isDigit = true := digits c (by rw [row]; simp)
      rw [row] at read
      split
      case h_1 minus =>
        cases minus
        exact absurd digit (by decide)
      case h_2 plus =>
        cases plus
        exact absurd digit (by decide)
      case h_3 =>
        simp only [read, Option.map_some, Option.some.injEq, Prod.mk.injEq, and_true]
        omega
  case neg =>
    have read := readDigits_longYear year rest
    rw [yearChars, if_neg plain]
    by_cases negative : year < 0
    · simp only [negative, if_true, List.cons_append, readYear, trimStart_cons (c := '-') (by decide)]
      rw [← longYearDigits, read]
      simp only [Option.map_some, Option.some.injEq, Prod.mk.injEq, and_true]
      omega
    · simp only [negative, if_false, List.cons_append, readYear, trimStart_cons (c := '+') (by decide)]
      rw [← longYearDigits, read]
      simp only [Option.map_some, Option.some.injEq, Prod.mk.injEq, and_true]
      omega

theorem readFraction_padded {width n : Nat} (narrow : width < 9) (small : n < 10 ^ (width + 1)) :
    readFraction ('.' :: (padded (width + 1) n ++ ['Z'])) = some (n * 10 ^ (8 - width), ['Z']) := by
  have digits : ∀ c ∈ padded (width + 1) n, c.isDigit = true := fun c mem => isDigit_padded mem
  have halts (k : Nat) : Halts Char.isDigit (['Z'].take k) := by
    cases k with
    | zero => exact .nil
    | succ k => exact .cons rfl
  have read := @readDigits_row _ digits (padded_ne_nil width n) 9 ['Z'] (by rw [length_padded]; omega)
    (halts _)
  rw [naturalOf_padded, Nat.mod_eq_of_lt small] at read
  have count : 9 - (width + 1) = 8 - width := by omega
  simp [readFraction, read, length_padded, count]

theorem readFraction_fractionChars {n : Nat} (small : n < 1000000000) :
    readFraction (fractionChars n ++ ['Z']) = some (n, ['Z']) := by
  unfold fractionChars
  split
  case isTrue zero => rw [zero]; rfl
  case isFalse =>
    split
    case isTrue milli =>
      rw [List.cons_append, readFraction_padded (by decide) (by omega)]
      simp only [Option.some.injEq, Prod.mk.injEq, and_true]
      omega
    case isFalse =>
      split
      case isTrue micro =>
        rw [List.cons_append, readFraction_padded (by decide) (by omega)]
        simp only [Option.some.injEq, Prod.mk.injEq, and_true]
        omega
      case isFalse =>
        rw [List.cons_append, readFraction_padded (by decide) (by omega)]
        simp

theorem small_of_isValid {t : Timestamp} (valid : t.isValid = true) :
    t.month < 100 ∧ t.day < 100 ∧ t.hour < 100 ∧ t.minute < 100 ∧ t.second < 100 ∧
      t.nanosecond < 1000000000 := by
  have most : daysInMonth t.year t.month ≤ 31 := by
    unfold daysInMonth
    split <;> (try split) <;> omega
  simp only [isValid, Bool.and_eq_true, decide_eq_true_eq] at valid
  omega

/-- A moment is read back from its text. -/
theorem parse?_toText {t : Timestamp} (valid : t.isValid = true) : parse? t.toText = some t := by
  obtain ⟨month, day, hour, minute, second, nanosecond⟩ := small_of_isValid valid
  have offset : readOffset ['Z'] = some (0, []) := rfl
  have trimmed : Text.trimStart ['Z'] = ['Z'] := trimStart_cons (by decide) []
  rw [parse?, toText, String.toList_ofList, dateChars, timeChars]
  simp only [List.append_assoc, List.cons_append]
  simp only [ofChars?, readYear_yearChars, @readMark_cons '-' (by decide),
    @readMark_cons ':' (by decide), readPart_padded month, readPart_padded day,
    readPart_padded hour, readPart_padded minute, readPart_padded second,
    readFraction_fractionChars nanosecond, trimmed, offset, bind, Option.bind]
  simp [isDateEnd, valid, Text.trimStart]

theorem decode_toJson {t : Timestamp} (valid : t.isValid = true) : decode t.toJson = .ok t := by
  simp [decode, toJson, parse?_toText valid]

end Timestamp

end WorkflowEngine
