import WorkflowEngine.Number.Binary64

/-!
# Decimal text of binary64 numbers

Reading takes a decimal literal apart into at most 64 bits of significand and a power of ten, rounds
the significand, and scales it by the rounded power: two roundings, exact whenever both parts are.
Writing takes the fewest digits that determine the number, found by trying the two neighbours on
grids of one, two, ... seventeen digits inside the interval of reals that round to it. Whole numbers
are written by `Int`, not here.
-/
namespace WorkflowEngine

namespace Decimal

/-- Value of a decimal digit character. -/
def digitValue (c : Char) : Nat := c.toNat - '0'.toNat

/-- The largest significand kept while reading. -/
def significandLimit : Nat := UInt64.size - 1

/-- Absorb integer digits: the first that does not fit, and all after it, only raise the power of
ten. Answers the significand and the number of digits dropped. -/
def absorbInteger : (significand : Nat) → List Char → Nat × Nat
  | s, [] => (s, 0)
  | s, c :: rest =>
    let next := s * 10 + digitValue c
    if next ≤ significandLimit then absorbInteger next rest else (s, rest.length + 1)

/-- Absorb fraction digits up to the first that does not fit. Answers the significand and the number
of digits absorbed. -/
def absorbFraction : (significand : Nat) → List Char → Nat × Nat
  | s, [] => (s, 0)
  | s, c :: rest =>
    let next := s * 10 + digitValue c
    if next ≤ significandLimit then
      let (final, taken) := absorbFraction next rest
      (final, taken + 1)
    else (s, 0)

/-- Powers of ten up to this one are finite binary64 numbers. -/
def greatestPower : Nat := 308

/-- Divide by `10 ^ power`, in steps of at most `10 ^ 308`; `fuel` steps bring every 64-bit
significand to zero, after which nothing changes. -/
def divideByPower (fuel : Nat) (x : Binary64) (power : Nat) : Binary64 :=
  match fuel with
  | 0 => x
  | fuel + 1 =>
    if power ≤ greatestPower then x.scaleDown (.ofNat (Nat.pow 10 power))
    else if x.isZero then x
    else divideByPower fuel (x.scaleDown (.ofNat (Nat.pow 10 greatestPower))) (power - greatestPower)

/-- `significand * 10 ^ power`, rounded; none when the magnitude is out of range. -/
def scaled (significand : Nat) (power : Int) : Option Binary64 :=
  let x := Binary64.ofNat significand
  if power < 0 then some (divideByPower 4 x (-power).toNat)
  else if x.isZero then some x
  else if power ≤ greatestPower then
    let y := x.scaleUp (.ofNat (Nat.pow 10 power.toNat))
    if y.isFinite then some y else none
  else none

/-- The written exponents that are told apart from the limit. -/
def exponentLimit : Nat := 0x7FFFFFFF

/-- The number written as integer digits, fraction digits and a power of ten. -/
def read (negative : Bool) (whole fraction : List Char) (powerNegative : Bool)
    (power : Nat) : Option Binary64 :=
  let (integer, dropped) := absorbInteger 0 whole
  let (significand, taken) := absorbFraction integer fraction
  let shift : Int := (dropped : Int) - taken
  let magnitude :=
    if exponentLimit < power then
      if powerNegative || significand = 0 then some (Binary64.zero false) else none
    else scaled significand (if powerNegative then shift - power else shift + power)
  magnitude.map fun x => .ofMagnitude negative x.magnitudeBits

/-- Digits of a positive decimal, most significant first and without trailing zeros, and the exponent
of ten of the first digit. -/
structure Digits where
  digits : List Char
  exponent : Int
  deriving DecidableEq

/-- The reals that round to a number, over the common denominator `den`: those between `low` and
`high`, with the ends when `closed`. `value` is the number itself. -/
structure Interval where
  low : Nat
  value : Nat
  high : Nat
  den : Nat
  closed : Bool

/-- The rounding interval of a finite positive number. Below a power of two the next number is only
half as far away. -/
def Interval.of (x : Binary64) : Interval :=
  let m := x.significand
  let below := if m = Binary64.hiddenBit && -1074 < x.exponent then 1 else 2
  let up := Nat.pow 2 x.exponent.toNat
  { low := (4 * m - below) * up
    value := 4 * m * up
    high := (4 * m + 2) * up
    den := 4 * Nat.pow 2 (-x.exponent).toNat
    closed := m % 2 == 0 }

/-- Does `count * 10 ^ power` round to the number? -/
def Interval.holds (i : Interval) (count : Nat) (power : Int) : Bool :=
  let scaled := count * Nat.pow 10 power.toNat * i.den
  let lowEnd := i.low * Nat.pow 10 (-power).toNat
  let highEnd := i.high * Nat.pow 10 (-power).toNat
  if i.closed then lowEnd ≤ scaled && scaled ≤ highEnd
  else lowEnd < scaled && scaled < highEnd

/-- The exponent of ten of the first digit of `num / den`: the largest `e` with
`10 ^ e ≤ num / den`, searched downwards from `start`. -/
def leadingExponent (num den : Nat) : (fuel : Nat) → (start : Int) → Int
  | 0, start => start
  | fuel + 1, start =>
    if den * Nat.pow 10 start.toNat ≤ num * Nat.pow 10 (-start).toNat then start
    else leadingExponent num den fuel (start - 1)

/-- The multiple of `10 ^ power` next to the number that rounds to it: of two, the nearer, and of
two equally near the even one. -/
def Interval.onGrid (i : Interval) (power : Int) : Option Nat :=
  let num := i.value * Nat.pow 10 (-power).toNat
  let den := i.den * Nat.pow 10 power.toNat
  let below := num / den
  let nearest := Binary64.roundHalfEven num den
  let farther := if nearest = below then below + 1 else below
  if i.holds nearest power then some nearest
  else if i.holds farther power then some farther
  else none

/-- Try `count` digits, then more, up to seventeen. -/
def shortestFrom (i : Interval) (leading : Int) : (fuel : Nat) → (count : Nat) → Nat × Int
  | 0, _ => (0, 0)
  | fuel + 1, count =>
    let power := leading - (count : Int) + 1
    match i.onGrid power with
    | some n => (n, power)
    | none => shortestFrom i leading fuel (count + 1)

/-- The fewest digits that determine a finite positive number. -/
def shortest (x : Binary64) : Digits :=
  let i := Interval.of x
  let guess : Int := ((i.value.log2 : Int) - i.den.log2 + 1) * 30103 / 100000 + 1
  let leading := leadingExponent i.value i.den 8 guess
  let (n, power) := shortestFrom i leading 17 1
  let all := Nat.toDigits 10 n
  let kept := (all.reverse.dropWhile (· == '0')).reverse
  { digits := kept, exponent := power + all.length - 1 }

/-- How a number with a fraction, or too large to be written as an integer, is laid out. -/
structure Layout where
  /-- Exponents of the first digit from this one on are written positionally, ... -/
  least : Int
  /-- ... up to and without this one. -/
  limit : Int

/-- Positional from `0.00001` to below `10^16`, scientific outside. -/
def layout : Layout := ⟨-5, 16⟩

/-- Digits around a decimal point; a whole number ends in `.0`. -/
def positional (d : Digits) : List Char :=
  if d.exponent < 0 then
    '0' :: '.' :: List.replicate ((-d.exponent).toNat - 1) '0' ++ d.digits
  else
    let places := d.exponent.toNat + 1
    let whole := d.digits.take places
    let padded := whole ++ List.replicate (places - whole.length) '0'
    match d.digits.drop places with
    | [] => padded ++ ['.', '0']
    | fraction => padded ++ '.' :: fraction

/-- One digit before the point and a signed exponent. -/
def scientific (d : Digits) : List Char :=
  let mantissa :=
    match d.digits with
    | [] => ['0']
    | [c] => [c]
    | c :: rest => c :: '.' :: rest
  let sign := if d.exponent < 0 then '-' else '+'
  mantissa ++ 'e' :: sign :: Nat.toDigits 10 d.exponent.natAbs

/-- The text of a finite number as a number with a fraction. -/
def write (x : Binary64) : List Char :=
  let body :=
    if x.isZero then ['0', '.', '0']
    else
      let d := shortest x
      if layout.least ≤ d.exponent && d.exponent < layout.limit then positional d
      else scientific d
  if x.isNegative then '-' :: body else body

end Decimal

end WorkflowEngine
