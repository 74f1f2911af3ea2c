/-!
# Binary64 numbers

A number of a context is one IEEE 754 binary64 word. The word is decoded into an exact significand
and exponent, and every operation the engine needs (rounding a quotient, scaling, comparing, asking
for a whole number) is stated on those with `Nat` and `Int` arithmetic, so a proof never meets an
opaque operation. General arithmetic on these numbers is not covered: the engine only reads, compares
and writes them.
-/
namespace WorkflowEngine

/-- One binary64 word. Equality is equality of words; `Binary64.equal` compares numbers. -/
structure Binary64 where
  bits : UInt64
  deriving DecidableEq

namespace Binary64

instance : Inhabited Binary64 := ⟨⟨0⟩⟩

/-- The bit above 63 magnitude bits. -/
def signBit : Nat := 0x8000000000000000

/-- The bit above 52 fraction bits, which significands have but words do not store. -/
def hiddenBit : Nat := 0x10000000000000

/-- The word without its sign bit. -/
def magnitudeBits (x : Binary64) : Nat := x.bits.toNat % signBit

def isNegative (x : Binary64) : Bool := signBit ≤ x.bits.toNat

/-- The word whose magnitude bits are all ones in the exponent and zero in the fraction. -/
def infinityBits : Nat := 2047 * hiddenBit

def isNaN (x : Binary64) : Bool := infinityBits < x.magnitudeBits

def isFinite (x : Binary64) : Bool := x.magnitudeBits < infinityBits

def isZero (x : Binary64) : Bool := x.magnitudeBits == 0

/-- The integer significand of a finite number: `|x| = significand * 2 ^ exponent`. -/
def significand (x : Binary64) : Nat :=
  if x.magnitudeBits < hiddenBit then x.magnitudeBits
  else hiddenBit + x.magnitudeBits % hiddenBit

/-- The exponent of two that goes with `significand`. -/
def exponent (x : Binary64) : Int :=
  if x.magnitudeBits < hiddenBit then -1074
  else (x.magnitudeBits / hiddenBit : Nat) - 1075

/-- The word with the given sign and magnitude bits. -/
def ofMagnitude (negative : Bool) (magnitude : Nat) : Binary64 :=
  ⟨UInt64.ofNat (if negative then signBit + magnitude else magnitude)⟩

def zero (negative : Bool) : Binary64 := ofMagnitude negative 0

def infinity (negative : Bool) : Binary64 := ofMagnitude negative infinityBits

/-- `num / den` rounded to an integer, a half going to the even neighbour. -/
def roundHalfEven (num den : Nat) : Nat :=
  let quotient := num / den
  let rest := 2 * (num % den)
  if rest < den then quotient
  else if den < rest then quotient + 1
  else if quotient % 2 = 0 then quotient else quotient + 1

/-- The largest `k` with `2 ^ k ≤ num / den`, for positive arguments. -/
def quotientLog2 (num den : Nat) : Int :=
  let k : Int := (num.log2 : Int) - den.log2
  if den * Nat.pow 2 k.toNat ≤ num * Nat.pow 2 (-k).toNat then k else k - 1

/-- The binary64 number nearest to `± num / den`, a tie going to the even significand; infinite when
the rounded magnitude is out of range. -/
def ofQuotient (negative : Bool) (num den : Nat) : Binary64 :=
  if num = 0 then zero negative
  else
    let unit : Int := max (quotientLog2 num den - 52) (-1074)
    let significand := roundHalfEven (num * Nat.pow 2 (-unit).toNat) (den * Nat.pow 2 unit.toNat)
    let magnitude := (unit + 1074).toNat * hiddenBit + significand
    ofMagnitude negative (min magnitude infinityBits)

/-- The number nearest to an integer. -/
def ofInt (i : Int) : Binary64 := ofQuotient (i < 0) i.natAbs 1

def ofNat (n : Nat) : Binary64 := ofQuotient false n 1

/-- The product of two finite numbers that are not negative, rounded once. -/
def scaleUp (x y : Binary64) : Binary64 :=
  let e := x.exponent + y.exponent
  ofQuotient false (x.significand * y.significand * Nat.pow 2 e.toNat) (Nat.pow 2 (-e).toNat)

/-- The quotient of two finite numbers that are not negative, rounded once; `y` is not zero. -/
def scaleDown (x y : Binary64) : Binary64 :=
  let e := x.exponent - y.exponent
  ofQuotient false (x.significand * Nat.pow 2 e.toNat) (y.significand * Nat.pow 2 (-e).toNat)

/-- The integer a finite number stands for, if it has no fraction. Both zeros are 0. -/
def toInt? (x : Binary64) : Option Int :=
  if !x.isFinite then none
  else
    let shrink := Nat.pow 2 (-x.exponent).toNat
    if x.significand % shrink = 0 then
      let whole : Int := (x.significand * Nat.pow 2 x.exponent.toNat / shrink : Nat)
      some (if x.isNegative then -whole else whole)
    else none

/-- The integer part, toward zero; 0 for a NaN and the largest 64-bit count for what exceeds it.
Meant for numbers that are not negative. -/
def toCount (x : Binary64) : Nat :=
  if x.isNaN then 0
  else if !x.isFinite then UInt64.size - 1
  else
    min (x.significand * Nat.pow 2 x.exponent.toNat / Nat.pow 2 (-x.exponent).toNat)
      (UInt64.size - 1)

/-- Position on the number line: words of one sign are ordered by their magnitude bits, and both
zeros have position 0. -/
def position (x : Binary64) : Int :=
  if x.isNegative then -(x.magnitudeBits : Int) else x.magnitudeBits

/-- Numeric comparison; a NaN is not comparable. -/
def compare? (x y : Binary64) : Option Ordering :=
  if x.isNaN || y.isNaN then none else some (compare x.position y.position)

/-- Numeric equality: both zeros are equal, a NaN equals nothing. -/
def equal (x y : Binary64) : Bool := x.compare? y == some .eq

/-- A number counts as true when it is neither a zero nor a NaN. -/
def truthy (x : Binary64) : Bool := !x.isZero && !x.isNaN

end Binary64

end WorkflowEngine
