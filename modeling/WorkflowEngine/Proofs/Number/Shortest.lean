import Mathlib.Data.Nat.Factorization.Basic
import WorkflowEngine.Number.Decimal
import WorkflowEngine.Proofs.Number.Rounding

/-!
# Whole numbers written with a point

Below `2 ^ 53` no integer but the number itself lies in the interval that rounds to a whole number. So the
fewest digits that determine it are its own without the zeros at the end, and it is written as its digits
with `.0` behind them.
-/
namespace WorkflowEngine

namespace Decimal

/-- An interval around an integer that reaches less than one to both sides. -/
structure Interval.Around (i : Interval) (n : Nat) : Prop where
  value : i.value = n * i.den
  below : i.low < i.value
  near_below : i.value < i.low + i.den
  above : i.value < i.high
  near_above : i.high < i.value + i.den

namespace Interval.Around

variable {i : Interval} {n : Nat}

/-- The only integer in the interval is the one it is around. -/
theorem holds_iff (around : i.Around n) (count power : Nat) :
    i.holds count power = true ↔ count * 10 ^ power = n := by
  obtain ⟨value, below, near_below, above, near_above⟩ := around
  have scaled : i.holds count power = true ↔
      if i.closed then i.low ≤ count * 10 ^ power * i.den ∧ count * 10 ^ power * i.den ≤ i.high
      else i.low < count * 10 ^ power * i.den ∧ count * 10 ^ power * i.den < i.high := by
    simp only [holds, Nat.pow_eq, Int.toNat_natCast, Int.toNat_neg_natCast, Nat.pow_zero, Nat.mul_one]
    split <;> simp
  rw [scaled]
  generalize count * 10 ^ power = m
  rcases Nat.lt_trichotomy m n with less | rfl | more
  case inl =>
    have apart : (m + 1) * i.den ≤ n * i.den := Nat.mul_le_mul_right i.den less
    rw [Nat.add_mul, Nat.one_mul] at apart
    split <;> omega
  case inr.inl => split <;> omega
  case inr.inr =>
    have apart : (n + 1) * i.den ≤ m * i.den := Nat.mul_le_mul_right i.den more
    rw [Nat.add_mul, Nat.one_mul] at apart
    split <;> omega

theorem den_pos (around : i.Around n) : 0 < i.den := by
  have := around.below
  have := around.near_below
  omega

theorem onGrid_of_dvd (around : i.Around n) {count power : Nat} (whole : count * 10 ^ power = n) :
    i.onGrid power = some count := by
  have room : 0 < i.den * 10 ^ power := Nat.mul_pos around.den_pos (Nat.pow_pos (by decide))
  have nearest : Binary64.roundHalfEven i.value (i.den * 10 ^ power) = count := by
    rw [around.value, ← whole, Nat.mul_assoc, Nat.mul_comm (10 ^ power),
      Binary64.roundHalfEven_exact count room]
  simp only [onGrid, Nat.pow_eq, Int.toNat_natCast, Int.toNat_neg_natCast, Nat.pow_zero, Nat.mul_one,
    nearest, (around.holds_iff count power).mpr whole, if_true]

theorem onGrid_of_not_dvd (around : i.Around n) {power : Nat} (part : ¬10 ^ power ∣ n) :
    i.onGrid power = none := by
  have none (count : Nat) : i.holds count power = false := by
    rw [← Bool.not_eq_true, around.holds_iff]
    exact fun whole => part (Dvd.intro_left count whole)
  simp only [onGrid, none, Bool.false_eq_true, if_false]

end Interval.Around

/-- A whole number below `2 ^ 53` has an exponent that is not above zero, so that its neighbours are
nearer than the next integers. -/
theorem around_of_standing {x : Binary64} {i : Int} (standing : x.Standing i) (some : i ≠ 0)
    (small : i.natAbs < 2 ^ 53) :
    (Interval.of x).Around i.natAbs ∧ ∃ k, (Interval.of x).den = 2 ^ k := by
  obtain ⟨low, high, least, -⟩ := Binary64.fields_of_normal (standing.normal some)
  have stands := standing.stands
  unfold Binary64.StandsFor at stands
  have level : x.exponent ≤ 0 := by
    by_contra positive
    have twice : 2 ^ 1 ≤ 2 ^ x.exponent.toNat := Nat.pow_le_pow_right (by decide) (by omega)
    have large := Nat.mul_le_mul low twice
    rw [stands, Int.toNat_of_nonpos (by omega), Nat.pow_zero, Nat.mul_one] at large
    unfold Binary64.hiddenBit at large
    omega
  have flat : x.exponent.toNat = 0 := by omega
  rw [flat, Nat.pow_zero, Nat.mul_one] at stands
  have den : (Interval.of x).den = 4 * 2 ^ (-x.exponent).toNat := rfl
  have room : 0 < 2 ^ (-x.exponent).toNat := Nat.two_pow_pos _
  have digits : 0 < x.significand := Nat.lt_of_lt_of_le (by decide) low
  refine ⟨⟨?_, ?_, ?_, ?_, ?_⟩, (-x.exponent).toNat + 2, ?_⟩
  · rw [den, Nat.mul_left_comm, ← stands]
    simp [Interval.of, flat]
  · simp only [Interval.of, flat, Nat.pow_eq, Nat.pow_zero, Nat.mul_one]
    split <;> omega
  · simp only [Interval.of, flat, Nat.pow_eq, Nat.pow_zero, Nat.mul_one]
    split <;> omega
  · simp only [Interval.of, flat, Nat.pow_eq, Nat.pow_zero, Nat.mul_one]
    omega
  · simp only [Interval.of, flat, Nat.pow_eq, Nat.pow_zero, Nat.mul_one]
    omega
  · rw [den, Nat.pow_add, Nat.mul_comm]

/-- The first grid with a number that rounds to the value is the one that is taken. -/
theorem shortestFrom_eq {i : Interval} {leading power : Int} {count : Nat}
    (found : i.onGrid power = some count) (before : ∀ p, power < p → i.onGrid p = none)
    (fuel start : Nat) (first : power ≤ leading - start + 1) (last : leading - start + 1 < power + fuel) :
    shortestFrom i leading fuel start = (count, power) := by
  induction fuel generalizing start with
  | zero => omega
  | succ fuel ih =>
    rw [shortestFrom]
    rcases Int.lt_or_eq_of_le first with later | here
    · simp only [before _ later]
      exact ih (start + 1) (by omega) (by omega)
    · simp only [← here, found]

theorem leadingExponent_le (num den fuel : Nat) (start : Int) :
    leadingExponent num den fuel start ≤ start := by
  induction fuel generalizing start with
  | zero => exact Int.le_refl start
  | succ fuel ih =>
    rw [leadingExponent]
    split
    · exact Int.le_refl start
    · exact (ih (start - 1)).trans (by omega)

theorem le_leadingExponent {num den : Nat} {power : Int}
    (fits : den * 10 ^ power.toNat ≤ num * 10 ^ (-power).toNat) (fuel : Nat) {start : Int}
    (high : power ≤ start) : power ≤ leadingExponent num den fuel start := by
  induction fuel generalizing start with
  | zero => exact high
  | succ fuel ih =>
    rw [leadingExponent]
    split
    case isTrue => exact high
    case isFalse large =>
      have other : power ≠ start := fun same => large (same ▸ fits)
      exact ih (by omega)

/-- The zeros at the end of a row of digits. -/
theorem toDigits_mul_pow {n : Nat} (some : 0 < n) (power : Nat) :
    Nat.toDigits 10 (n * 10 ^ power) = Nat.toDigits 10 n ++ List.replicate power '0' := by
  induction power with
  | zero => simp
  | succ power ih =>
    have front : 0 < n * 10 ^ power := Nat.mul_pos some (Nat.pow_pos (by decide))
    have last : Nat.toDigits 10 0 = ['0'] := rfl
    have step := Nat.toDigits_append_toDigits (by decide : 1 < 10) front (by decide : 0 < 10)
    rw [Nat.add_zero, ih, last, List.append_assoc, ← List.replicate_succ'] at step
    rw [step, Nat.pow_succ, Nat.mul_comm 10, Nat.mul_assoc]

/-- Without a zero at the end there is none to take off. -/
theorem kept_toDigits {n : Nat} (odd : ¬10 ∣ n) :
    ((Nat.toDigits 10 n).reverse.dropWhile (· == '0')).reverse = Nat.toDigits 10 n := by
  have digit : ∀ d < 10, d ≠ 0 → (Nat.digitChar d == '0') = false := by decide
  have last : n % 10 ≠ 0 := by omega
  rw [Nat.toDigits_eq_if (by decide)]
  split
  case isTrue single =>
    rw [List.reverse_singleton, List.dropWhile_cons_of_neg (by simp [digit n single (by omega)])]
    rfl
  case isFalse =>
    have mark := digit (n % 10) (Nat.mod_lt n (by decide)) last
    rw [List.reverse_append, List.reverse_singleton, List.singleton_append,
      List.dropWhile_cons_of_neg (by simp [mark]), List.reverse_cons, List.reverse_reverse]

/-- The digits of an integer, and the exponent of the first. -/
theorem positional_of_trimmed {n power : Nat} (some : 0 < n) :
    positional ⟨Nat.toDigits 10 n, power + (Nat.toDigits 10 n).length - 1⟩ =
      Nat.toDigits 10 (n * 10 ^ power) ++ ['.', '0'] := by
  have digit : 0 < (Nat.toDigits 10 n).length := Nat.length_toDigits_pos
  have places : ((power : Int) + (Nat.toDigits 10 n).length - 1).toNat + 1 =
      power + (Nat.toDigits 10 n).length := by omega
  have front : ¬(power : Int) + (Nat.toDigits 10 n).length - 1 < 0 := by omega
  have taken : (Nat.toDigits 10 n).take (power + (Nat.toDigits 10 n).length) = Nat.toDigits 10 n :=
    List.take_of_length_le (by omega)
  have dropped : (Nat.toDigits 10 n).drop (power + (Nat.toDigits 10 n).length) = [] :=
    List.drop_of_length_le (by omega)
  simp only [positional, front, if_false, places, taken, dropped, Nat.add_sub_cancel,
    toDigits_mul_pow some]

theorem log2_mul_pow {n : Nat} (some : n ≠ 0) (k : Nat) : (n * 2 ^ k).log2 = n.log2 + k := by
  have room : 0 < 2 ^ k := Nat.two_pow_pos k
  rw [Nat.log2_eq_iff (Nat.mul_ne_zero some room.ne'), Nat.pow_add, Nat.add_right_comm, Nat.pow_add]
  exact ⟨Nat.mul_le_mul_right _ (Nat.log2_self_le some), Nat.mul_lt_mul_of_pos_right Nat.lt_log2_self room⟩

/-- Where the search for the first digit of a whole number starts is not below it, and not far above. -/
theorem guess_bounds {n power : Nat} (some : n ≠ 0) (small : n < 2 ^ 53) (fits : 10 ^ power ≤ n) :
    (power : Int) ≤ ((n.log2 : Int) + 1) * 30103 / 100000 + 1 ∧
      ((n.log2 : Int) + 1) * 30103 / 100000 + 1 ≤ 16 := by
  have bits : n.log2 < 53 := (Nat.log2_lt some).mpr small
  have tens : ∀ b < 53, 2 ^ (b + 1) ≤ 10 ^ ((b + 1) * 30103 / 100000 + 1) := by decide
  have above : 10 ^ power < 10 ^ ((n.log2 + 1) * 30103 / 100000 + 1) :=
    Nat.lt_of_le_of_lt fits (Nat.lt_of_lt_of_le Nat.lt_log2_self (tens n.log2 bits))
  have digits := (Nat.pow_lt_pow_iff_right (by decide : 1 < 10)).mp above
  omega

/-- The fewest digits that determine a whole number are its own, without the zeros at the end. -/
theorem shortest_of_around {x : Binary64} {n k count power : Nat} (around : (Interval.of x).Around n)
    (den : (Interval.of x).den = 2 ^ k) (small : n < 2 ^ 53) (some : 0 < count)
    (whole : count * 10 ^ power = n) (odd : ¬10 ∣ count) :
    shortest x = ⟨Nat.toDigits 10 count, power + (Nat.toDigits 10 count).length - 1⟩ := by
  have positive : n ≠ 0 := by
    rw [← whole]
    exact (Nat.mul_pos some (Nat.pow_pos (by decide))).ne'
  have fits : 10 ^ power ≤ n := by
    rw [← whole]
    exact Nat.le_mul_of_pos_left _ some
  have coarse (p : Int) (later : (power : Int) < p) : (Interval.of x).onGrid p = none := by
    obtain ⟨p, rfl⟩ := Int.eq_ofNat_of_zero_le (by omega : 0 ≤ p)
    apply around.onGrid_of_not_dvd
    intro divides
    have more : 10 ^ power * 10 ∣ 10 ^ power * count := by
      rw [← Nat.pow_succ, Nat.mul_comm, whole]
      exact (Nat.pow_dvd_pow 10 (by omega)).trans divides
    exact odd (Nat.dvd_of_mul_dvd_mul_left (Nat.pow_pos (by decide)) more)
  obtain ⟨high, near⟩ := guess_bounds positive small fits
  have start : ((Interval.of x).value.log2 : Int) - (Interval.of x).den.log2 + 1 = n.log2 + 1 := by
    rw [around.value, den, log2_mul_pow positive, Nat.log2_two_pow]
    omega
  have lowest : (Interval.of x).den * 10 ^ (power : Int).toNat ≤
      (Interval.of x).value * 10 ^ (-(power : Int)).toNat := by
    rw [around.value, Int.toNat_natCast, Int.toNat_neg_natCast, Nat.pow_zero, Nat.mul_one, Nat.mul_comm]
    exact Nat.mul_le_mul_right _ fits
  have reached := le_leadingExponent lowest 8 high
  have near := (leadingExponent_le (Interval.of x).value (Interval.of x).den 8 _).trans near
  have found {leading : Int} (reached : (power : Int) ≤ leading) (near : leading ≤ 16) :
      shortestFrom (Interval.of x) leading 17 1 = (count, (power : Int)) := by
    apply shortestFrom_eq (around.onGrid_of_dvd whole) coarse
    · omega
    · omega
  simp only [shortest, start, found reached near, kept_toDigits odd]

/-- A whole number below `2 ^ 53` is written as its digits with a point and a zero behind them. -/
theorem write_of_toInt? {x : Binary64} {i : Int} (whole : x.toInt? = some i) (small : i.natAbs < 2 ^ 53) :
    write x =
      (if x.isNegative then ['-'] else []) ++ (Nat.toDigits 10 i.natAbs ++ ['.', '0']) := by
  have standing := Binary64.standing_of_toInt? whole
  by_cases none : i = 0
  case pos =>
    have zero : x.isZero = true := by simp [Binary64.isZero, standing.zero none]
    simp only [write, zero, if_true, none]
    split <;> rfl
  case neg =>
    have normal := standing.normal none
    have some : x.isZero = false := by
      unfold Binary64.hiddenBit at normal
      simp [Binary64.isZero]
      omega
    obtain ⟨power, count, odd, split⟩ := Nat.exists_eq_pow_mul_and_not_dvd (Int.natAbs_ne_zero.mpr none) 10
      (by decide)
    rw [Nat.mul_comm] at split
    have positive : 0 < count := Nat.pos_of_ne_zero fun zero => odd (zero ▸ Nat.dvd_zero 10)
    obtain ⟨around, k, den⟩ := around_of_standing standing none small
    have digits := shortest_of_around around den small positive split.symm odd
    have length : (Nat.toDigits 10 i.natAbs).length ≤ 16 :=
      (Nat.length_toDigits_le_iff (by decide) (by decide)).mpr (by omega)
    rw [split, toDigits_mul_pow positive, List.length_append, List.length_replicate] at length
    have first : 0 < (Nat.toDigits 10 count).length := Nat.length_toDigits_pos
    have low : layout.least ≤ (power : Int) + (Nat.toDigits 10 count).length - 1 := by
      change (-5 : Int) ≤ _
      omega
    have high : (power : Int) + (Nat.toDigits 10 count).length - 1 < layout.limit := by
      change _ < (16 : Int)
      omega
    simp only [write, some, Bool.false_eq_true, if_false, digits, low, high, decide_true, Bool.and_self,
      if_true, positional_of_trimmed positive, split]
    by_cases negative : x.isNegative = true <;> simp [negative]

end Decimal

end WorkflowEngine
