import Mathlib.Algebra.Group.Nat.Defs
import Mathlib.Data.List.Basic
import WorkflowEngine.Timestamp
import WorkflowEngine.Text.Hex

/-!
# Rows of digits

What is written as a row of decimal or hexadecimal digits reads back as the same number, and a row
that is followed by something other than a digit is read no further than it goes.
-/
namespace WorkflowEngine

/-- A text does not start with a character of a kind. -/
def Halts (kind : Char → Bool) (rest : List Char) : Prop := ∀ c ∈ rest.head?, kind c = false

namespace Halts

variable {kind : Char → Bool}

theorem nil : Halts kind [] := by simp [Halts]

theorem cons {c : Char} {rest : List Char} (other : kind c = false) : Halts kind (c :: rest) := by
  simpa [Halts] using other

theorem takeWhile {rest : List Char} (halts : Halts kind rest) : rest.takeWhile kind = [] := by
  cases rest with
  | nil => rfl
  | cons c rest => rw [List.takeWhile_cons, halts c rfl]; rfl

theorem dropWhile {rest : List Char} (halts : Halts kind rest) : rest.dropWhile kind = rest := by
  cases rest with
  | nil => rfl
  | cons c rest => rw [List.dropWhile_cons, halts c rfl]; rfl

/-- A row of a kind is no longer for what stands behind it. -/
theorem takeWhile_append {rest : List Char} (halts : Halts kind rest) (cs : List Char) :
    (cs ++ rest).takeWhile kind = cs.takeWhile kind := by
  induction cs with
  | nil => exact halts.takeWhile
  | cons c cs ih => simp only [List.cons_append, List.takeWhile_cons, ih]

theorem dropWhile_append {rest : List Char} (halts : Halts kind rest) (cs : List Char) :
    (cs ++ rest).dropWhile kind = cs.dropWhile kind ++ rest := by
  induction cs with
  | nil => exact halts.dropWhile
  | cons c cs ih =>
    simp only [List.cons_append, List.dropWhile_cons, ih]
    split <;> rfl

end Halts

theorem digitChar_isDigit (d : Nat) : (Nat.digitChar (d % 10)).isDigit = true := by
  have all : ∀ d < 10, (Nat.digitChar d).isDigit = true := by decide
  exact all (d % 10) (Nat.mod_lt d (by decide))

theorem digitValue_digitChar (d : Nat) : Decimal.digitValue (Nat.digitChar (d % 10)) = d % 10 := by
  have all : ∀ d < 10, Decimal.digitValue (Nat.digitChar d) = d := by decide
  exact all (d % 10) (Nat.mod_lt d (by decide))

namespace Json

theorem naturalOf_eq (digits : List Char) : naturalOf digits = Nat.ofDigitChars 10 digits 0 := by
  simp only [naturalOf, Nat.ofDigitChars_eq_foldl, Nat.mul_comm 10]
  rfl

theorem naturalOf_toDigits (n : Nat) : naturalOf (Nat.toDigits 10 n) = n := by
  rw [naturalOf_eq, Nat.ofDigitChars_ten_toDigits]

theorem naturalOf_append (front : List Char) (c : Char) :
    naturalOf (front ++ [c]) = naturalOf front * 10 + Decimal.digitValue c := by
  simp [naturalOf]

/-- A number above zero is written without a zero in front. -/
theorem head_toDigits {n : Nat} (positive : 0 < n) : (Nat.toDigits 10 n).head? ≠ some '0' := by
  induction n using Nat.strongRecOn with
  | ind n ih =>
    rw [Nat.toDigits_eq_if (by decide)]
    split
    case isTrue single =>
      have all : ∀ d < 10, 0 < d → [Nat.digitChar d].head? ≠ some '0' := by decide
      exact all n single positive
    case isFalse more =>
      have front := ih (n / 10) (by omega) (by omega)
      rwa [List.head?_append_of_ne_nil _ Nat.toDigits_ne_nil]

theorem isDigit_toDigits {n : Nat} {c : Char} (mem : c ∈ Nat.toDigits 10 n) : c.isDigit = true :=
  Nat.isDigit_of_mem_toDigits (by decide) (by decide) mem

end Json

namespace Timestamp

theorem length_padded (width n : Nat) : (padded width n).length = width := by
  induction width generalizing n with
  | zero => rfl
  | succ width ih => simp [padded, ih]

theorem isDigit_padded {width n : Nat} {c : Char} (mem : c ∈ padded width n) : c.isDigit = true := by
  induction width generalizing n with
  | zero => simp [padded] at mem
  | succ width ih =>
    simp only [padded, List.mem_append, List.mem_singleton] at mem
    rcases mem with mem | rfl
    · exact ih mem
    · exact digitChar_isDigit n

theorem naturalOf_padded (width n : Nat) : Json.naturalOf (padded width n) = n % 10 ^ width := by
  induction width generalizing n with
  | zero => simp [padded, Json.naturalOf, Nat.mod_one]
  | succ width ih =>
    rw [padded, Json.naturalOf_append, ih, digitValue_digitChar, Nat.pow_succ,
      Nat.mul_comm (10 ^ width), Nat.mod_mul]
    omega

end Timestamp

namespace Hex

theorem value?_digit (n : Nat) : value? (digit n) = some (n % 16) := by
  have all : ∀ d < 16, value? (Nat.digitChar d) = some d := by decide
  exact all (n % 16) (Nat.mod_lt n (by decide))

theorem read?_append (front : List Char) (c : Char) :
    read? (front ++ [c]) = (read? front).bind fun n => (value? c).map fun d => n * 16 + d := by
  simp only [read?, List.foldl_append, List.foldl_cons, List.foldl_nil]
  cases List.foldl (fun acc c => do return (← acc) * 16 + (← value? c)) (some 0) front with
  | none => rfl
  | some n => cases value? c <;> rfl

theorem read?_digits (width n : Nat) : read? (digits width n) = some (n % 16 ^ width) := by
  induction width generalizing n with
  | zero => simp [digits, read?, Nat.mod_one]
  | succ width ih =>
    rw [digits, read?_append, ih, value?_digit, Nat.pow_succ, Nat.mul_comm (16 ^ width),
      Nat.mod_mul]
    simp only [Option.bind_some, Option.map_some, Option.some.injEq]
    omega

end Hex

end WorkflowEngine
