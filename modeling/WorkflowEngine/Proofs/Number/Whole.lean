import Mathlib.Data.Nat.Log
import Mathlib.Tactic.Ring
import WorkflowEngine.Number.Binary64

/-!
# Whole numbers in binary64

A binary64 number without a fraction stands for an integer, and that integer is rounded to the number
it came from; only the sign of a zero is lost.
-/
namespace WorkflowEngine

namespace Binary64

/-- A word is its sign and its magnitude. -/
theorem ofMagnitude_magnitudeBits (x : Binary64) : ofMagnitude x.isNegative x.magnitudeBits = x := by
  obtain ⟨bits⟩ := x
  have bound : bits.toNat < 2 ^ 64 := bits.toNat_lt
  simp only [ofMagnitude, isNegative, magnitudeBits, signBit, Binary64.mk.injEq]
  apply UInt64.toNat_inj.mp
  rw [UInt64.toNat_ofNat']
  by_cases negative : 0x8000000000000000 ≤ bits.toNat <;> simp only [negative, decide_true,
    decide_false, if_true, Bool.false_eq_true, if_false] <;> omega

theorem roundHalfEven_exact (n : Nat) {den : Nat} (positive : 0 < den) :
    roundHalfEven (n * den) den = n := by
  simp [roundHalfEven, Nat.mul_div_cancel n positive, positive]

theorem quotientLog2_one {n : Nat} (positive : n ≠ 0) : quotientLog2 n 1 = n.log2 := by
  have one : Nat.log2 1 = 0 := by decide
  have least : 2 ^ n.log2 ≤ n := Nat.log2_self_le positive
  simp [quotientLog2, one, least]

/-- The binary digits of an integer that has a significand of 53 bits at an exponent. -/
theorem log2_of_significand {n s : Nat} {e : Int} (low : hiddenBit ≤ s) (high : s < 2 * hiddenBit)
    (scaled : n * 2 ^ (-e).toNat = s * 2 ^ e.toNat) (positive : n ≠ 0) :
    (n.log2 : Int) = e + 52 := by
  have hidden : hiddenBit = 2 ^ 52 := by decide
  rw [hidden] at low high
  have high : s < 2 ^ 53 := by omega
  obtain ⟨k, rfl | rfl⟩ := e.eq_nat_or_neg
  case inl =>
    have whole : n = s * 2 ^ k := by simpa using scaled
    have log : n.log2 = 52 + k := by
      rw [Nat.log2_eq_iff positive, whole, Nat.pow_add, show 52 + k + 1 = 53 + k by omega,
        Nat.pow_add 2 53]
      have room : 0 < 2 ^ k := Nat.two_pow_pos k
      exact ⟨Nat.mul_le_mul_right _ low, Nat.mul_lt_mul_of_pos_right high room⟩
    omega
  case inr =>
    have whole : n * 2 ^ k = s := by simpa using scaled
    have small : k ≤ 52 := by
      by_contra large
      have : 2 ^ 53 ≤ 2 ^ k := Nat.pow_le_pow_right (by decide) (by omega)
      have : 1 * 2 ^ k ≤ n * 2 ^ k := Nat.mul_le_mul_right _ (by omega)
      omega
    have room : 0 < 2 ^ k := Nat.two_pow_pos k
    have log : n.log2 = 52 - k := by
      rw [Nat.log2_eq_iff positive]
      constructor
      · apply Nat.le_of_mul_le_mul_right _ room
        rwa [← Nat.pow_add, show 52 - k + k = 52 by omega, whole]
      · apply Nat.lt_of_mul_lt_mul_right (a := 2 ^ k)
        rwa [← Nat.pow_add, show 52 - k + 1 + k = 53 by omega, whole]
    omega

/-- An integer that has a significand of 53 bits at an exponent is not rounded. -/
theorem ofQuotient_of_significand (negative : Bool) {n s : Nat} {e : Int} (low : hiddenBit ≤ s)
    (high : s < 2 * hiddenBit) (scaled : n * 2 ^ (-e).toNat = s * 2 ^ e.toNat) (least : -1074 ≤ e) :
    ofQuotient negative n 1 =
      ofMagnitude negative (min ((e + 1074).toNat * hiddenBit + s) infinityBits) := by
  have positive : n ≠ 0 := by
    rintro rfl
    have room : 0 < 2 ^ e.toNat := Nat.two_pow_pos _
    have : 0 < s := by unfold hiddenBit at low; omega
    have := Nat.mul_pos this room
    omega
  have log := log2_of_significand low high scaled positive
  have unit : max (quotientLog2 n 1 - 52) (-1074) = e := by
    rw [quotientLog2_one positive, log, Int.add_sub_cancel]
    exact max_eq_left least
  have round : roundHalfEven (n * 2 ^ (-e).toNat) (2 ^ e.toNat) = s := by
    rw [scaled, roundHalfEven_exact s (Nat.two_pow_pos _)]
  simp [ofQuotient, positive, unit, round]

/-- What the fields of a number with a significand of 53 bits say of its word. -/
theorem fields_of_normal {x : Binary64} (normal : hiddenBit ≤ x.magnitudeBits) :
    hiddenBit ≤ x.significand ∧ x.significand < 2 * hiddenBit ∧ -1074 ≤ x.exponent ∧
      (x.exponent + 1074).toNat * hiddenBit + x.significand = x.magnitudeBits := by
  have digits : x.significand = hiddenBit + x.magnitudeBits % hiddenBit :=
    if_neg (Nat.not_lt.mpr normal)
  have power : x.exponent = (x.magnitudeBits / hiddenBit : Nat) - 1075 :=
    if_neg (Nat.not_lt.mpr normal)
  rw [digits, power]
  unfold hiddenBit at *
  omega

/-- Below the least number with a significand of 53 bits, only a zero is whole. -/
theorem isZero_of_subnormal {x : Binary64} (small : x.magnitudeBits < hiddenBit)
    (divides : x.significand % 2 ^ (-x.exponent).toNat = 0) : x.magnitudeBits = 0 := by
  have digits : x.significand = x.magnitudeBits := if_pos small
  have power : x.exponent = -1074 := if_pos small
  have scale : hiddenBit ≤ 2 ^ (-(-1074) : Int).toNat :=
    Nat.pow_le_pow_right (n := 2) (i := 52) (by decide) (by decide)
  rw [digits, power] at divides
  rwa [Nat.mod_eq_of_lt (small.trans_le scale)] at divides

/-- The number with the sign of a zero taken off. -/
def unsigned (x : Binary64) : Binary64 := if x.isZero then zero false else x

@[simp] theorem unsigned_unsigned (x : Binary64) : x.unsigned.unsigned = x.unsigned := by
  have plain : (zero false).unsigned = zero false := ite_self _
  by_cases zero : x.isZero = true
  · rw [show x.unsigned = Binary64.zero false from if_pos zero, plain]
  · have same : x.unsigned = x := if_neg zero
    rw [same, same]

/-- The significand at the exponent is an integer. -/
def StandsFor (x : Binary64) (n : Nat) : Prop :=
  x.significand * 2 ^ x.exponent.toNat = n * 2 ^ (-x.exponent).toNat

/-- What a whole number says of its word. -/
structure Standing (x : Binary64) (i : Int) : Prop where
  finite : x.magnitudeBits < infinityBits
  stands : x.StandsFor i.natAbs
  sign : (if x.isNegative then -(i.natAbs : Int) else i.natAbs) = i
  zero : i = 0 → x.magnitudeBits = 0
  normal : i ≠ 0 → hiddenBit ≤ x.magnitudeBits

theorem standing_of_toInt? {x : Binary64} {i : Int} (whole : x.toInt? = some i) : x.Standing i := by
  have finite : x.magnitudeBits < infinityBits := by
    by_contra large
    simp [toInt?, isFinite, large] at whole
  simp only [toInt?, isFinite, finite, decide_true, Bool.not_true, Bool.false_eq_true, if_false,
    Nat.pow_eq, Option.ite_none_right_eq_some, Option.some.injEq] at whole
  obtain ⟨divides, value⟩ := whole
  generalize grown : x.significand * 2 ^ x.exponent.toNat / 2 ^ (-x.exponent).toNat = n at value
  have scaled : x.significand * 2 ^ x.exponent.toNat = n * 2 ^ (-x.exponent).toNat := by
    rw [← grown]
    exact (Nat.div_mul_cancel (Dvd.dvd.mul_right (Nat.dvd_of_mod_eq_zero divides) _)).symm
  have magnitude : i.natAbs = n := by
    rw [← value]
    split <;> omega
  rcases Nat.lt_or_ge x.magnitudeBits hiddenBit with small | normal
  case inl =>
    have zero : x.magnitudeBits = 0 := isZero_of_subnormal small divides
    have digits : x.significand = 0 := by rw [significand, if_pos small, zero]
    have none : n = 0 := by rw [← grown, digits, Nat.zero_mul, Nat.zero_div]
    exact ⟨finite, magnitude ▸ scaled, magnitude ▸ value, fun _ => zero, fun some => by omega⟩
  case inr =>
    obtain ⟨low, -, -, -⟩ := fields_of_normal normal
    have positive : 0 < n := by
      apply Nat.pos_of_ne_zero
      rintro rfl
      have := Nat.mul_pos (Nat.lt_of_lt_of_le (by decide) low) (Nat.two_pow_pos x.exponent.toNat)
      omega
    exact ⟨finite, magnitude ▸ scaled, magnitude ▸ value, fun none => by omega, fun _ => normal⟩

/-- The integer a whole number stands for is rounded to the number. -/
theorem ofInt_of_toInt? {x : Binary64} {i : Int} (whole : x.toInt? = some i) :
    ofInt i = x.unsigned := by
  have standing := standing_of_toInt? whole
  by_cases none : i = 0
  case pos =>
    rw [none, unsigned, if_pos (by simp [isZero, standing.zero none])]
    decide
  case neg =>
    have normal := standing.normal none
    obtain ⟨low, high, least, word⟩ := fields_of_normal normal
    have some : 0 < x.magnitudeBits := Nat.lt_of_lt_of_le (by decide) normal
    have negative : decide (i < 0) = x.isNegative := by
      have sign := standing.sign
      cases signed : x.isNegative <;> simp only [signed, if_true, Bool.false_eq_true, if_false] at sign
      · exact decide_eq_false (by omega)
      · exact decide_eq_true (by omega)
    rw [ofInt, negative, ofQuotient_of_significand _ low high standing.stands.symm least, word,
      min_eq_left standing.finite.le, ofMagnitude_magnitudeBits, unsigned,
      if_neg (by simp [isZero]; omega)]

end Binary64

end WorkflowEngine
