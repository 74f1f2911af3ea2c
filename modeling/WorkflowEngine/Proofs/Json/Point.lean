import WorkflowEngine.Proofs.Json.Number
import WorkflowEngine.Proofs.Number.Shortest
import WorkflowEngine.Proofs.Value.Json

/-!
# Whole numbers read with a point

The digits of a whole number and the zero behind its point are read as ten times the number, of which the
tenth is taken. Both steps round, so that the number comes back where ten times the number needs no
rounding, and may come back as a neighbour where it does.
-/
namespace WorkflowEngine

namespace Decimal

theorem absorbInteger_eq {digits : List Char} {significand n : Nat}
    (value : digits.foldl (fun n c => n * 10 + digitValue c) significand = n)
    (small : n ≤ significandLimit) : absorbInteger significand digits = (n, 0) := by
  induction digits generalizing significand with
  | nil => simp [absorbInteger, ← value]
  | cons c digits ih =>
    have grows (digits : List Char) (start : Nat) :
        start ≤ digits.foldl (fun n c => n * 10 + digitValue c) start := by
      induction digits generalizing start with
      | nil => exact Nat.le_refl start
      | cons d digits ih => exact Nat.le_trans (by omega) (ih (start * 10 + digitValue d))
    rw [List.foldl_cons] at value
    have next : significand * 10 + digitValue c ≤ significandLimit :=
      Nat.le_trans (value ▸ grows digits _) small
    simp only [absorbInteger, next, if_true]
    exact ih value

/-- Digits with a point and a zero behind them are read as the tenth of ten times their number. -/
theorem read_point (negative : Bool) {n : Nat} (small : 10 * n ≤ significandLimit) :
    read negative (Nat.toDigits 10 n) ['0'] false 0 =
      some (.ofMagnitude negative (Binary64.tenfoldTenth n).magnitudeBits) := by
  have whole : absorbInteger 0 (Nat.toDigits 10 n) = (n, 0) :=
    absorbInteger_eq (Json.naturalOf_toDigits n) (by omega)
  have fraction : absorbFraction n ['0'] = (10 * n, 1) := by
    have digit : n * 10 + digitValue '0' = 10 * n := by simp [digitValue, Nat.mul_comm]
    simp only [absorbFraction, digit, small, if_true]
  have power : ¬exponentLimit < 0 := Nat.not_lt_zero _
  have tenth : scaled (10 * n) (-1) = some (Binary64.tenfoldTenth n) := by
    simp [scaled, divideByPower, greatestPower, Binary64.tenfoldTenth]
  have shift : (0 : Int) - (1 : Nat) + 0 = -1 := by decide
  simp only [read, whole, fraction, power, if_false, Bool.false_eq_true, Nat.cast_zero, shift, tenth,
    Option.map_some]

end Decimal

namespace Binary64

/-- What is read of a whole number that is written with a point. -/
def viaTenths (x : Binary64) : Binary64 :=
  ofMagnitude x.isNegative (tenfoldTenth ((x.toInt?.map Int.natAbs).getD 0)).magnitudeBits

theorem magnitudeBits_ofQuotient (negative : Bool) (num den : Nat) :
    (ofQuotient negative num den).magnitudeBits = (ofQuotient false num den).magnitudeBits := by
  have small (m : Nat) : min m infinityBits < signBit :=
    Nat.lt_of_le_of_lt (Nat.min_le_right _ _) (by decide)
  unfold ofQuotient
  split
  · cases negative <;> rfl
  · simp only [magnitudeBits_ofMagnitude _ (small _)]

/-- A whole number comes back while ten times the number needs no rounding. -/
theorem viaTenths_eq {x : Binary64} {i : Int} (whole : x.toInt? = some i)
    (small : 10 * i.natAbs < 2 ^ 54) : x.viaTenths = x := by
  have standing := standing_of_toInt? whole
  have unsigned : x.unsigned.magnitudeBits = x.magnitudeBits := by
    by_cases none : i = 0
    · have zero := standing.zero none
      rw [Binary64.unsigned, if_pos (by simp [isZero, zero]), zero]
      rfl
    · have normal := standing.normal none
      rw [Binary64.unsigned, if_neg]
      unfold hiddenBit at normal
      simp [isZero]
      omega
  have magnitude : (ofNat i.natAbs).magnitudeBits = x.magnitudeBits := by
    rw [← unsigned, ← ofInt_of_toInt? whole]
    exact (magnitudeBits_ofQuotient _ _ _).symm
  rw [viaTenths, whole, Option.map_some, Option.getD_some, tenfoldTenth_eq small, magnitude,
    ofMagnitude_magnitudeBits]

end Binary64

namespace Json

/-- Digits with a point behind them are read with the digits behind it. -/
theorem readMagnitude_point (negative : Bool) (n : Nat) :
    readMagnitude negative (Nat.toDigits 10 n ++ ['.', '0']) =
      .ok (⟨negative, Nat.toDigits 10 n, some ['0'], none⟩, []) := by
  have halts : Halts Char.isDigit ['.', '0'] := .cons rfl
  have row : (Nat.toDigits 10 n).takeWhile Char.isDigit = Nat.toDigits 10 n :=
    List.takeWhile_eq_self_iff.mpr fun c mem => isDigit_toDigits mem
  have left : (Nat.toDigits 10 n).dropWhile Char.isDigit = [] :=
    List.dropWhile_eq_nil_iff.mpr fun c mem => isDigit_toDigits mem
  simp only [readMagnitude, halts.takeWhile_append, halts.dropWhile_append, row, left]
  split
  case h_1 none => exact absurd none Nat.toDigits_ne_nil
  case h_2 zero =>
    rcases Nat.eq_zero_or_pos n with rfl | positive
    · simp at zero
    · exact absurd (by rw [zero]; rfl) (head_toDigits positive)
  case h_3 => rfl

theorem readLiteral_point (negative : Bool) (n : Nat) :
    readLiteral ((if negative then ['-'] else []) ++ (Nat.toDigits 10 n ++ ['.', '0'])) =
      .ok (⟨negative, Nat.toDigits 10 n, some ['0'], none⟩, []) := by
  cases negative with
  | true => exact (readLiteral_minus _).trans (readMagnitude_point true n)
  | false =>
    cases digits : Nat.toDigits 10 n with
    | nil => exact absurd digits Nat.toDigits_ne_nil
    | cons c cs =>
      have digit : c.isDigit = true := isDigit_toDigits (n := n) (by rw [digits]; simp)
      have other : c ≠ '-' := by
        rintro rfl
        exact absurd digit (by decide)
      have read := readMagnitude_point false n
      rw [digits] at read
      exact (readLiteral_cons other _).trans read

namespace Number

/-- A whole number below `2 ^ 53` is read as the tenth of ten times the number. -/
theorem readNumber_whole {x : Binary64} (whole : x.Whole) :
    readNumber (write (.float x)) = .ok (.float x.viaTenths, []) := by
  obtain ⟨i, value, small⟩ := whole
  have standing := Binary64.standing_of_toInt? value
  have finite : x.isFinite = true := by simp [Binary64.isFinite, standing.finite]
  have fits : 10 * i.natAbs ≤ Decimal.significandLimit := by
    have size : Decimal.significandLimit = 2 ^ 64 - 1 := rfl
    omega
  have number : Literal.number? ⟨x.isNegative, Nat.toDigits 10 i.natAbs, some ['0'], none⟩ =
      some (.float x.viaTenths) := by
    simp only [Literal.number?, Option.isNone_some, Bool.false_and, Bool.false_eq_true, if_false,
      Option.getD_some, Option.getD_none]
    rw [show naturalOf [] = 0 from rfl, Decimal.read_point _ fits, Option.map_some, Binary64.viaTenths,
      value, Option.map_some, Option.getD_some]
  rw [write, if_pos finite, Decimal.write_of_toInt? value small, readNumber, readLiteral_point]
  simp only [bind, Except.bind, number]
  rfl

theorem readable_whole {x : Binary64} (whole : x.Whole) : (float x).Readable :=
  (readable_of_read (readNumber_whole whole)).1

theorem reread_whole {x : Binary64} (whole : x.Whole) : (float x).reread = .float x.viaTenths :=
  (readable_of_read (readNumber_whole whole)).2

end Number

end Json

end WorkflowEngine
