import Mathlib.Algebra.Group.Int.Defs
import Mathlib.Algebra.Group.Nat.Defs
import Mathlib.Data.List.TakeWhile
import WorkflowEngine.Json.Printer
import WorkflowEngine.Json.Reader
import WorkflowEngine.Proofs.Text.Digits

/-!
# Numbers of a JSON text

A number is read no further than its text goes, whatever stands behind it, and an integer of at most
64 bits is read back as it was written. Numbers with a fraction are not: reading rounds twice, so that
some come back as a neighbour. `Number.Stable` tells those that do come back.
-/
namespace WorkflowEngine

namespace Json

/-- Characters a number may go on with. -/
def isNumeral (c : Char) : Bool := c.isDigit || c == '.' || c == 'e' || c == 'E'

/-- A literal after its sign. -/
def readMagnitude (negative : Bool) (cs : List Char) : Except ReadError (Literal × List Char) :=
  match cs.takeWhile Char.isDigit with
  | [] => .error .invalidNumber
  | '0' :: _ :: _ => .error .invalidNumber
  | whole => do
    let (fraction, rest) ← readFraction (cs.dropWhile Char.isDigit)
    let (power, rest) ← readPower rest
    return (⟨negative, whole, fraction, power⟩, rest)

theorem readLiteral_minus (cs : List Char) : readLiteral ('-' :: cs) = readMagnitude true cs := rfl

theorem readLiteral_cons {c : Char} (other : c ≠ '-') (cs : List Char) :
    readLiteral (c :: cs) = readMagnitude false (c :: cs) := by
  unfold readLiteral
  split
  next negative cs' signed =>
    have unsigned : (negative, cs') = (false, c :: cs) := by simpa [other] using signed.symm
    cases unsigned
    rfl

section Locality

variable {rest : List Char} (halts : Halts isNumeral rest)
include halts

theorem halts_digit : Halts Char.isDigit rest := by
  intro c head
  have := halts c head
  simp_all [isNumeral]

theorem readFraction_rest : readFraction rest = .ok (none, rest) := by
  cases rest with
  | nil => rfl
  | cons c rest =>
    have other : c ≠ '.' := by
      rintro rfl
      exact absurd (halts '.' rfl) (by decide)
    simp [readFraction, other]

theorem readPower_rest : readPower rest = .ok (none, rest) := by
  cases rest with
  | nil => rfl
  | cons c rest =>
    have other : (c == 'e' || c == 'E') = false := by
      have := halts c rfl
      simp_all [isNumeral]
    simp [readPower, other]

theorem readFraction_append {cs left : List Char} {fraction : Option (List Char)}
    (read : readFraction cs = .ok (fraction, left)) :
    readFraction (cs ++ rest) = .ok (fraction, left ++ rest) := by
  have digit := halts_digit halts
  unfold readFraction at read
  split at read
  case h_1 behind =>
    simp only [List.cons_append, readFraction, digit.takeWhile_append, digit.dropWhile_append]
    cases row : behind.takeWhile Char.isDigit <;> simp_all
  case h_2 other =>
    cases read
    cases cs with
    | nil => exact readFraction_rest halts
    | cons c cs =>
      have : c ≠ '.' := fun point => other cs (by rw [point])
      simp [readFraction, this]

theorem readPowerDigits_append {negative : Bool} {cs left : List Char}
    {power : Option (Bool × List Char)}
    (read : readPowerDigits negative cs = .ok (power, left)) :
    readPowerDigits negative (cs ++ rest) = .ok (power, left ++ rest) := by
  have digit := halts_digit halts
  simp only [readPowerDigits, digit.takeWhile_append, digit.dropWhile_append] at read ⊢
  cases row : cs.takeWhile Char.isDigit <;> simp_all

theorem readPower_append {cs left : List Char} {power : Option (Bool × List Char)}
    (read : readPower cs = .ok (power, left)) :
    readPower (cs ++ rest) = .ok (power, left ++ rest) := by
  cases cs with
  | nil =>
    cases read
    exact readPower_rest halts
  | cons c cs =>
    simp only [readPower, List.cons_append] at read ⊢
    split at read
    case isFalse other =>
      cases read
      simp [other]
    case isTrue letter =>
      rw [if_pos letter]
      have digits {negative : Bool} {behind : List Char}
          (read : readPowerDigits negative behind = .ok (power, left)) :=
        readPowerDigits_append halts read
      split at read
      case h_1 => exact digits read
      case h_2 => exact digits read
      case h_3 minus plus =>
        cases cs with
        | nil => cases read
        | cons d cs =>
          have notMinus : d ≠ '-' := fun sign => minus cs (by rw [sign])
          have notPlus : d ≠ '+' := fun sign => plus cs (by rw [sign])
          simpa [notMinus, notPlus] using digits read

theorem readMagnitude_append {negative : Bool} {cs left : List Char} {literal : Literal}
    (read : readMagnitude negative cs = .ok (literal, left)) :
    readMagnitude negative (cs ++ rest) = .ok (literal, left ++ rest) := by
  have digit := halts_digit halts
  simp only [readMagnitude, bind, Except.bind, digit.takeWhile_append, digit.dropWhile_append]
    at read ⊢
  split at read
  case h_1 => cases read
  case h_2 => cases read
  case h_3 =>
    cases fraction : readFraction (cs.dropWhile Char.isDigit) with
    | error e => simp [fraction] at read
    | ok found =>
      simp only [fraction] at read
      cases power : readPower found.2 with
      | error e => simp [power] at read
      | ok last =>
        simp only [power] at read
        cases read
        simp [readFraction_append halts fraction, readPower_append halts power, pure, Except.pure]

theorem readLiteral_append {cs left : List Char} {literal : Literal}
    (read : readLiteral cs = .ok (literal, left)) :
    readLiteral (cs ++ rest) = .ok (literal, left ++ rest) := by
  cases cs with
  | nil => cases read
  | cons c cs =>
    rcases eq_or_ne c '-' with rfl | other
    · rw [readLiteral_minus] at read
      rw [List.cons_append, readLiteral_minus]
      exact readMagnitude_append halts read
    · rw [readLiteral_cons other] at read
      rw [List.cons_append, readLiteral_cons other]
      exact readMagnitude_append halts read

/-- A number is read no further than its text goes. -/
theorem readNumber_append {cs : List Char} {n : Number} (read : readNumber cs = .ok (n, [])) :
    readNumber (cs ++ rest) = .ok (n, rest) := by
  unfold readNumber at read ⊢
  cases literal : readLiteral cs with
  | error e => simp [literal, bind, Except.bind] at read
  | ok found =>
    obtain ⟨l, left⟩ := found
    simp only [literal, bind, Except.bind] at read
    split at read
    case h_2 => cases read
    case h_1 m value =>
      cases read
      simp [readLiteral_append halts literal, bind, Except.bind, value, pure, Except.pure]

end Locality

theorem readMagnitude_toDigits (negative : Bool) (n : Nat) :
    readMagnitude negative (Nat.toDigits 10 n) =
      .ok (⟨negative, Nat.toDigits 10 n, none, none⟩, []) := by
  have row : (Nat.toDigits 10 n).takeWhile Char.isDigit = Nat.toDigits 10 n :=
    List.takeWhile_eq_self_iff.mpr fun c mem => isDigit_toDigits mem
  have left : (Nat.toDigits 10 n).dropWhile Char.isDigit = [] :=
    List.dropWhile_eq_nil_iff.mpr fun c mem => isDigit_toDigits mem
  simp only [readMagnitude, row, left]
  split
  case h_1 none => exact absurd none Nat.toDigits_ne_nil
  case h_2 zero =>
    rcases Nat.eq_zero_or_pos n with rfl | positive
    · simp at zero
    · exact absurd (by rw [zero]; rfl) (head_toDigits positive)
  case h_3 => rfl

namespace Number

/-- The number is read back from its text. -/
def Stable (n : Number) : Prop := readNumber n.write = .ok (n, [])

theorem readLiteral_integer (i : Int) :
    readLiteral (write (.integer i)) =
      .ok (⟨decide (i < 0), Nat.toDigits 10 i.natAbs, none, none⟩, []) := by
  by_cases negative : i < 0
  case pos =>
    simp only [write, negative, if_true, List.singleton_append, readLiteral_minus,
      readMagnitude_toDigits, decide_true]
  case neg =>
    simp only [write, negative, if_false, List.nil_append, decide_false]
    cases digits : Nat.toDigits 10 i.natAbs with
    | nil => exact absurd digits Nat.toDigits_ne_nil
    | cons c cs =>
      have digit : c.isDigit = true := isDigit_toDigits (n := i.natAbs) (by rw [digits]; simp)
      have other : c ≠ '-' := by
        rintro rfl
        exact absurd digit (by decide)
      rw [readLiteral_cons other, ← digits, readMagnitude_toDigits]

/-- Integers of at most 64 bits are read back. -/
theorem stable_integer {i : Int} (low : -2 ^ 63 ≤ i) (high : i < 2 ^ 64) :
    Stable (.integer i) := by
  have value : Literal.number? ⟨decide (i < 0), Nat.toDigits 10 i.natAbs, none, none⟩ =
      some (.integer i) := by
    have size : UInt64.size = 2 ^ 64 := rfl
    simp only [Literal.number?, naturalOf_toDigits, Option.isNone_none, Bool.and_self,
      Bool.true_and, size]
    by_cases negative : i < 0
    · have some : 0 < i.natAbs := by omega
      have small : 2 * i.natAbs ≤ 2 ^ 64 := by omega
      have value : -(i.natAbs : Int) = i := by omega
      simp only [negative, some, small, value, decide_true, Bool.and_self, if_true]
    · have small : i.natAbs < 2 ^ 64 := by omega
      have value : (i.natAbs : Int) = i := by omega
      simp only [negative, small, value, decide_true, decide_false, Bool.false_eq_true, if_false,
        if_true]
  simp [Stable, readNumber, readLiteral_integer, value, bind, Except.bind, pure, Except.pure]

/-- What is read of the text of a number, where that is read at all. -/
def reread (n : Number) : Number :=
  match readNumber n.write with
  | .ok (m, _) => m
  | .error _ => n

/-- The text of the number is read, to its end. -/
def Readable (n : Number) : Prop := readNumber n.write = .ok (n.reread, [])

theorem readable_of_read {n m : Number} (read : readNumber n.write = .ok (m, [])) :
    n.Readable ∧ n.reread = m := by
  have same : n.reread = m := by simp [reread, read]
  exact ⟨by rw [Readable, same, read], same⟩

/-- A number that is read starts with a sign or a digit. -/
theorem Readable.head {n : Number} (readable : n.Readable) :
    ∃ c cs, n.write = c :: cs ∧ (c == '-' || c.isDigit) = true := by
  cases text : n.write with
  | nil =>
    rw [Readable, text] at readable
    cases readable
  | cons c cs =>
    refine ⟨c, cs, rfl, ?_⟩
    rcases eq_or_ne c '-' with rfl | other
    · rfl
    · by_contra neither
      have digit : c.isDigit = false := by simpa [other] using neither
      rw [Readable, text] at readable
      simp [readNumber, readLiteral_cons other, readMagnitude, digit, bind, Except.bind] at readable

theorem newline_not_mem_toDigits (n : Nat) : '\n' ∉ Nat.toDigits 10 n := fun mem =>
  absurd (isDigit_toDigits mem) (by decide)

end Number

end Json

namespace Decimal

theorem newline_not_mem_shortest (x : Binary64) : '\n' ∉ (shortest x).digits := by
  intro mem
  simp only [shortest, List.mem_reverse] at mem
  have mem := (List.dropWhile_sublist _).subset mem
  exact Json.Number.newline_not_mem_toDigits _ (List.mem_reverse.mp mem)

theorem newline_not_mem_positional {d : Digits} (digits : '\n' ∉ d.digits) :
    '\n' ∉ positional d := by
  have taken (n : Nat) : '\n' ∉ d.digits.take n := fun mem => digits (List.mem_of_mem_take mem)
  have dropped (n : Nat) : '\n' ∉ d.digits.drop n := fun mem => digits (List.mem_of_mem_drop mem)
  unfold positional
  split
  · simp [digits]
  · dsimp only
    split
    · simp [taken]
    · simp [taken, dropped]

theorem newline_not_mem_scientific {d : Digits} (digits : '\n' ∉ d.digits) :
    '\n' ∉ scientific d := by
  have sign : '\n' ≠ (if d.exponent < 0 then '-' else '+') := by split <;> decide
  have exponent := Json.Number.newline_not_mem_toDigits d.exponent.natAbs
  unfold scientific
  dsimp only
  split
  · simp [sign, exponent]
  · simp_all
  · simp_all

theorem newline_not_mem_write (x : Binary64) : '\n' ∉ write x := by
  have digits := newline_not_mem_shortest x
  have body := newline_not_mem_positional digits
  have body' := newline_not_mem_scientific digits
  unfold write
  dsimp only
  split <;> split <;> (try split) <;> simp_all

end Decimal

theorem Json.Number.newline_not_mem_write (n : Number) : '\n' ∉ n.write := by
  cases n with
  | integer i =>
    have digits := newline_not_mem_toDigits i.natAbs
    simp only [write]
    split <;> simp [digits]
  | float x =>
    have text := Decimal.newline_not_mem_write x
    simp only [write]
    split <;> simp [text]

end WorkflowEngine
