import Mathlib.Algebra.Order.Field.Power
import Mathlib.Data.Int.Log
import Mathlib.Data.Rat.Floor
import WorkflowEngine.Proofs.Number.Whole

/-!
# Rounding goes by the quotient

A quotient is rounded to a number by its value, not by the terms it is given in. So where the terms of a
division are numbers that stand for integers, what comes out is the quotient of those, rounded once.
-/
namespace WorkflowEngine

namespace Binary64

theorem roundHalfEven_mul_right (num den : Nat) {c : Nat} (positive : 0 < c) :
    roundHalfEven (num * c) (den * c) = roundHalfEven num den := by
  have rest : 2 * (num % den * c) = 2 * (num % den) * c := by rw [Nat.mul_assoc]
  have below : 2 * (num % den) * c < den * c ↔ 2 * (num % den) < den := Nat.mul_lt_mul_right positive
  have above : den * c < 2 * (num % den) * c ↔ den < 2 * (num % den) := Nat.mul_lt_mul_right positive
  simp only [roundHalfEven, Nat.mul_div_mul_right _ _ positive, Nat.mul_mod_mul_right, rest, below, above]

theorem roundHalfEven_congr {a b c d : Nat} (left : 0 < b) (right : 0 < d) (same : a * d = c * b) :
    roundHalfEven a b = roundHalfEven c d := by
  rw [← roundHalfEven_mul_right a b right, same, Nat.mul_comm b d, roundHalfEven_mul_right c d left]

/-- A power of two is the quotient of what its exponent has above zero and below. -/
theorem two_zpow (e : Int) : (2 : ℚ) ^ e * 2 ^ (-e).toNat = 2 ^ e.toNat := by
  rw [← zpow_natCast, ← zpow_natCast, ← zpow_add₀ two_ne_zero]
  congr 1
  omega

/-- Is a power of two at most the quotient? -/
theorem le_quotient_iff {num den : Nat} (positive : 0 < den) (e : Int) :
    den * 2 ^ e.toNat ≤ num * 2 ^ (-e).toNat ↔ (2 : ℚ) ^ e ≤ num / den := by
  have below : (0 : ℚ) < 2 ^ (-e).toNat := by positivity
  rw [le_div_iff₀ (by exact_mod_cast positive), ← mul_le_mul_iff_left₀ below, mul_right_comm, two_zpow,
    mul_comm ((2 : ℚ) ^ e.toNat)]
  exact_mod_cast Iff.rfl

theorem quotientLog2_eq {num den : Nat} (some : 0 < num) (positive : 0 < den) :
    quotientLog2 num den = Int.log 2 ((num : ℚ) / den) := by
  have low : (2 : ℚ) ^ num.log2 ≤ num := by exact_mod_cast Nat.log2_self_le some.ne'
  have high : (num : ℚ) < 2 ^ (num.log2 + 1) := by exact_mod_cast Nat.lt_log2_self
  have least : (2 : ℚ) ^ den.log2 ≤ den := by exact_mod_cast Nat.log2_self_le positive.ne'
  have most : (den : ℚ) < 2 ^ (den.log2 + 1) := by exact_mod_cast Nat.lt_log2_self
  have den_pos : (0 : ℚ) < den := by exact_mod_cast positive
  have quotient : (0 : ℚ) < num / den := by positivity
  have above : ((num.log2 : Int) - den.log2) - 1 ≤ Int.log 2 ((num : ℚ) / den) := by
    rw [← Int.zpow_le_iff_le_log one_lt_two quotient, le_div_iff₀ den_pos, Nat.cast_ofNat]
    calc (2 : ℚ) ^ ((num.log2 : Int) - den.log2 - 1) * den
        ≤ 2 ^ ((num.log2 : Int) - den.log2 - 1) * 2 ^ (den.log2 + 1) := by gcongr
      _ = 2 ^ num.log2 := by
        rw [← zpow_natCast, ← zpow_natCast, ← zpow_add₀ two_ne_zero]
        congr 1
        push_cast
        ring
      _ ≤ num := low
  have below : Int.log 2 ((num : ℚ) / den) < ((num.log2 : Int) - den.log2) + 1 := by
    rw [← Int.lt_zpow_iff_log_lt one_lt_two quotient, div_lt_iff₀ den_pos, Nat.cast_ofNat]
    calc (num : ℚ) < 2 ^ (num.log2 + 1) := high
      _ = 2 ^ ((num.log2 : Int) - den.log2 + 1) * 2 ^ den.log2 := by
        rw [← zpow_natCast, ← zpow_natCast, ← zpow_add₀ two_ne_zero]
        congr 1
        push_cast
        ring
      _ ≤ 2 ^ ((num.log2 : Int) - den.log2 + 1) * den := by gcongr
  have here (e : Int) : den * 2 ^ e.toNat ≤ num * 2 ^ (-e).toNat ↔ e ≤ Int.log 2 ((num : ℚ) / den) := by
    rw [le_quotient_iff positive, ← Int.zpow_le_iff_le_log one_lt_two quotient, Nat.cast_ofNat]
  simp only [quotientLog2, Nat.pow_eq, here]
  split <;> omega

/-- Rounding goes by the value of a quotient. -/
theorem ofQuotient_congr (negative : Bool) {a b c d : Nat} (left : 0 < b) (right : 0 < d)
    (same : a * d = c * b) : ofQuotient negative a b = ofQuotient negative c d := by
  by_cases zero : a = 0
  · have other : c = 0 := by
      rw [zero, Nat.zero_mul] at same
      exact (Nat.mul_eq_zero.mp same.symm).resolve_right left.ne'
    rw [ofQuotient, if_pos zero, ofQuotient, if_pos other]
  · have some : c ≠ 0 := by
      rintro rfl
      rw [Nat.zero_mul] at same
      exact (Nat.mul_eq_zero.mp same).elim zero right.ne'
    have quotient : (a : ℚ) / b = c / d := by
      rw [div_eq_div_iff (by exact_mod_cast left.ne') (by exact_mod_cast right.ne')]
      exact_mod_cast same
    have unit : quotientLog2 a b = quotientLog2 c d := by
      rw [quotientLog2_eq (Nat.pos_of_ne_zero zero) left, quotientLog2_eq (Nat.pos_of_ne_zero some) right,
        quotient]
    have round (x y : Nat) (room : 0 < y) :
        roundHalfEven (a * x) (b * y) = roundHalfEven (c * x) (d * y) := by
      apply roundHalfEven_congr (Nat.mul_pos left room) (Nat.mul_pos right room)
      calc a * x * (d * y) = a * d * (x * y) := by ring
        _ = c * b * (x * y) := by rw [same]
        _ = c * x * (b * y) := by ring
    simp only [ofQuotient, zero, some, if_false, unit, Nat.pow_eq,
      round _ _ (Nat.two_pow_pos _)]

theorem StandsFor.value {x : Binary64} {n : Nat} (stands : x.StandsFor n) :
    (x.significand : ℚ) * 2 ^ x.exponent = n := by
  have room : (2 : ℚ) ^ (-x.exponent).toNat ≠ 0 := by positivity
  apply mul_right_cancel₀ room
  rw [mul_assoc, two_zpow]
  exact_mod_cast stands

/-- The quotient of two integers is rounded once. -/
theorem scaleDown_of_standsFor {x y : Binary64} {n d : Nat} (num : x.StandsFor n) (den : y.StandsFor d)
    (positive : 0 < d) : x.scaleDown y = ofQuotient false n d := by
  have some : 0 < y.significand := by
    apply Nat.pos_of_ne_zero
    intro zero
    have none := den.value
    rw [zero, Nat.cast_zero, zero_mul] at none
    exact positive.ne (by exact_mod_cast none)
  apply ofQuotient_congr false (Nat.mul_pos some (Nat.two_pow_pos _)) positive
  have power : (2 : ℚ) ^ (x.exponent - y.exponent) * 2 ^ y.exponent = 2 ^ x.exponent := by
    rw [← zpow_add₀ two_ne_zero, sub_add_cancel]
  have same : (x.significand * 2 ^ (x.exponent - y.exponent).toNat * d : ℚ) =
      n * (y.significand * 2 ^ (-(x.exponent - y.exponent)).toNat) := by
    rw [← num.value, ← den.value, ← two_zpow, ← power]
    ring
  exact_mod_cast same

theorem magnitudeBits_ofMagnitude (negative : Bool) {m : Nat} (small : m < signBit) :
    (ofMagnitude negative m).magnitudeBits = m := by
  unfold signBit at small
  cases negative <;>
    simp only [ofMagnitude, magnitudeBits, signBit, UInt64.toNat_ofNat', if_true, Bool.false_eq_true,
      if_false] <;> omega

/-- A word with a significand of 53 bits at an exponent has these fields. -/
theorem fields_ofMagnitude {s : Nat} {e : Int} (low : hiddenBit ≤ s) (high : s < 2 * hiddenBit)
    (least : -1074 ≤ e) (most : e ≤ 970) :
    (ofMagnitude false ((e + 1074).toNat * hiddenBit + s)).significand = s ∧
      (ofMagnitude false ((e + 1074).toNat * hiddenBit + s)).exponent = e := by
  have small : (e + 1074).toNat * hiddenBit + s < signBit := by
    unfold hiddenBit signBit at *
    omega
  rw [significand, exponent, magnitudeBits_ofMagnitude false small]
  unfold hiddenBit at *
  split <;> omega

/-- An integer that has a significand of 53 bits is rounded to a number that stands for it. -/
theorem standsFor_ofNat {n s : Nat} {e : Int} (low : hiddenBit ≤ s) (high : s < 2 * hiddenBit)
    (scaled : n * 2 ^ (-e).toNat = s * 2 ^ e.toNat) (least : -1074 ≤ e) (most : e ≤ 970) :
    (ofNat n).StandsFor n := by
  have finite : (e + 1074).toNat * hiddenBit + s ≤ infinityBits := by
    unfold infinityBits hiddenBit at *
    omega
  obtain ⟨digits, power⟩ := fields_ofMagnitude low high least most
  rw [ofNat, ofQuotient_of_significand false low high scaled least, min_eq_left finite, StandsFor, digits,
    power, scaled]

/-- Integers of at most 53 bits are not rounded. -/
theorem standsFor_ofNat_of_lt {n : Nat} (some : 0 < n) (small : n < 2 ^ 53) : (ofNat n).StandsFor n := by
  have bits : n.log2 < 53 := (Nat.log2_lt some.ne').mpr small
  have room : 0 < 2 ^ (52 - n.log2) := Nat.two_pow_pos _
  have hidden : hiddenBit = 2 ^ n.log2 * 2 ^ (52 - n.log2) := by
    rw [← Nat.pow_add, Nat.add_sub_cancel' (by omega)]
    rfl
  have low : hiddenBit ≤ n * 2 ^ (52 - n.log2) := by
    rw [hidden]
    exact Nat.mul_le_mul_right _ (Nat.log2_self_le some.ne')
  have high : n * 2 ^ (52 - n.log2) < 2 * hiddenBit := by
    rw [hidden, ← Nat.mul_assoc, ← Nat.pow_succ']
    exact Nat.mul_lt_mul_of_pos_right Nat.lt_log2_self room
  refine @standsFor_ofNat n _ (-(52 - n.log2 : Nat)) low high ?_ (by omega) (by omega)
  rw [Int.neg_neg, Int.toNat_natCast, Int.toNat_of_nonpos (by omega), Nat.pow_zero, Nat.mul_one]

/-- Ten times an integer is not rounded while it has at most 54 bits, for it is even. -/
theorem standsFor_tenfold {n : Nat} (some : 0 < n) (small : 10 * n < 2 ^ 54) :
    (ofNat (10 * n)).StandsFor (10 * n) := by
  rcases Nat.lt_or_ge (10 * n) (2 ^ 53) with narrow | wide
  case inl => exact standsFor_ofNat_of_lt (by omega) narrow
  case inr =>
    apply @standsFor_ofNat (10 * n) (5 * n) 1
    · unfold hiddenBit
      omega
    · unfold hiddenBit
      omega
    · simp only [Int.reduceNeg, Int.reduceToNat]
      omega
    · decide
    · decide

/-- Ten times an integer, rounded, and the tenth of that, rounded again. -/
def tenfoldTenth (n : Nat) : Binary64 := (ofNat (10 * n)).scaleDown (ofNat 10)

theorem tenfoldTenth_eq {n : Nat} (small : 10 * n < 2 ^ 54) : tenfoldTenth n = ofNat n := by
  have ten : (ofNat 10).StandsFor 10 := standsFor_ofNat_of_lt (by decide) (by decide)
  rcases Nat.eq_zero_or_pos n with rfl | some
  case inl => decide
  case inr =>
    rw [tenfoldTenth, scaleDown_of_standsFor (standsFor_tenfold some small) ten (by decide)]
    exact ofQuotient_congr false (by decide) (by decide) (by omega)

end Binary64

end WorkflowEngine
