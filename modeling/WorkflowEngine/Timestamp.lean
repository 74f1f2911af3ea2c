import WorkflowEngine.Json.Decode
import WorkflowEngine.Text.Blank

/-!
# Timestamps

A moment in UTC to the nanosecond, held as the parts of its written form. Reading follows RFC 3339 with
the usual leniency: a blank or a letter of either case between date and time, numbers without leading
zeros, blanks around the parts, and any offset of less than a day, which is removed. Writing gives
UTC with as few of 0, 3, 6 or 9 fraction digits as are needed.
-/
namespace WorkflowEngine

/-- A second of 60 is a leap second. -/
structure Timestamp where
  year : Int
  month : Nat
  day : Nat
  hour : Nat
  minute : Nat
  second : Nat
  nanosecond : Nat
  deriving DecidableEq, Inhabited

namespace Timestamp

def isLeapYear (year : Int) : Bool := year % 4 = 0 && (year % 100 ≠ 0 || year % 400 = 0)

def daysInMonth (year : Int) (month : Nat) : Nat :=
  match month with
  | 2 => if isLeapYear year then 29 else 28
  | 4 => 30
  | 6 => 30
  | 9 => 30
  | 11 => 30
  | _ => 31

/-- The years that can be told. -/
def yearRange : Int × Int := (-262143, 262142)

/-- A date of the calendar and a time of the day. -/
def isValid (t : Timestamp) : Bool :=
  yearRange.1 ≤ t.year && t.year ≤ yearRange.2 && 1 ≤ t.month && t.month ≤ 12 && 1 ≤ t.day &&
    t.day ≤ daysInMonth t.year t.month && t.hour < 24 && t.minute < 60 && t.second ≤ 60 &&
    t.nanosecond < 1000000000

def previousDay (t : Timestamp) : Timestamp :=
  if 1 < t.day then { t with day := t.day - 1 }
  else if 1 < t.month then { t with month := t.month - 1, day := daysInMonth t.year (t.month - 1) }
  else { t with year := t.year - 1, month := 12, day := 31 }

def nextDay (t : Timestamp) : Timestamp :=
  if t.day < daysInMonth t.year t.month then { t with day := t.day + 1 }
  else if t.month < 12 then { t with month := t.month + 1, day := 1 }
  else { t with year := t.year + 1, month := 1, day := 1 }

/-- Take away an offset of less than a day, in minutes. -/
def removeOffset (t : Timestamp) (minutes : Int) : Timestamp :=
  let ofDay : Int := (t.hour * 60 + t.minute : Nat) - minutes
  let moved := if ofDay < 0 then t.previousDay else if 1440 ≤ ofDay then t.nextDay else t
  let rest := (ofDay % 1440).toNat
  { moved with hour := rest / 60, minute := rest % 60 }

/-- Earlier moments first. -/
def order (a b : Timestamp) : Ordering :=
  compare a.year b.year |>.then (compare a.month b.month) |>.then (compare a.day b.day)
    |>.then (compare a.hour b.hour) |>.then (compare a.minute b.minute)
    |>.then (compare a.second b.second) |>.then (compare a.nanosecond b.nanosecond)

/-- The moment a number of seconds and nanoseconds after the start of 1970. -/
def ofUnix (seconds nanosecond : Nat) : Timestamp :=
  let shifted := seconds / 86400 + 719468
  let era := shifted / 146097
  let dayOfEra := shifted % 146097
  let yearOfEra := (dayOfEra - dayOfEra / 1460 + dayOfEra / 36524 - dayOfEra / 146096) / 365
  let dayOfYear := dayOfEra - (365 * yearOfEra + yearOfEra / 4 - yearOfEra / 100)
  let marchMonth := (5 * dayOfYear + 2) / 153
  let month := if marchMonth < 10 then marchMonth + 3 else marchMonth - 9
  let ofDay := seconds % 86400
  { year := (yearOfEra + era * 400 + (if month ≤ 2 then 1 else 0) : Nat)
    month := month
    day := dayOfYear - (153 * marchMonth + 2) / 5 + 1
    hour := ofDay / 3600
    minute := ofDay / 60 % 60
    second := ofDay % 60
    nanosecond := nanosecond }

/-- The lowest `width` decimal digits of a number. -/
def padded : (width : Nat) → Nat → List Char
  | 0, _ => []
  | width + 1, n => padded width (n / 10) ++ [Nat.digitChar (n % 10)]

/-- Four digits, or a sign and at least four outside of the years 0 to 9999. -/
def yearChars (year : Int) : List Char :=
  if 0 ≤ year ∧ year ≤ 9999 then padded 4 year.toNat
  else
    let digits := Nat.toDigits 10 year.natAbs
    (if year < 0 then '-' else '+') :: (List.replicate (4 - digits.length) '0' ++ digits)

def fractionChars (nanosecond : Nat) : List Char :=
  if nanosecond = 0 then []
  else if nanosecond % 1000000 = 0 then '.' :: padded 3 (nanosecond / 1000000)
  else if nanosecond % 1000 = 0 then '.' :: padded 6 (nanosecond / 1000)
  else '.' :: padded 9 nanosecond

def dateChars (t : Timestamp) : List Char :=
  yearChars t.year ++ '-' :: padded 2 t.month ++ '-' :: padded 2 t.day

def timeChars (t : Timestamp) : List Char :=
  padded 2 t.hour ++ ':' :: padded 2 t.minute ++ ':' :: padded 2 t.second

def toText (t : Timestamp) : String :=
  String.ofList (t.dateChars ++ 'T' :: t.timeChars ++ fractionChars t.nanosecond ++ ['Z'])

/-- The form with a numeric offset. -/
def toOffsetText (t : Timestamp) : String :=
  String.ofList (t.dateChars ++ 'T' :: t.timeChars ++ fractionChars t.nanosecond ++
    "+00:00".toList)

/-- Date and time without a fraction. -/
def toShortText (t : Timestamp) : String := String.ofList (t.dateChars ++ ' ' :: t.timeChars)

/-- Up to `width` digits, at least one, as a number. -/
def readDigits (width : Nat) (cs : List Char) : Option (Nat × List Char) :=
  match (cs.take width).takeWhile Char.isDigit with
  | [] => none
  | ds => some (Json.naturalOf ds, cs.drop ds.length)

/-- A number after blanks. -/
def readPart (width : Nat) (cs : List Char) : Option (Nat × List Char) :=
  readDigits width (Text.trimStart cs)

/-- A year of four digits, or of any length after a sign. -/
def readYear (cs : List Char) : Option (Int × List Char) :=
  match Text.trimStart cs with
  | '-' :: rest => (readDigits rest.length rest).map fun (n, rest) => (-(n : Int), rest)
  | '+' :: rest => (readDigits rest.length rest).map fun (n, rest) => ((n : Int), rest)
  | rest => (readDigits 4 rest).map fun (n, rest) => ((n : Int), rest)

/-- A separator after blanks. -/
def readMark (mark : Char) (cs : List Char) : Option (List Char) :=
  match Text.trimStart cs with
  | c :: rest => if c = mark then some rest else none
  | [] => none

/-- The nanoseconds after a point; digits after the ninth are dropped. -/
def readFraction : List Char → Option (Nat × List Char)
  | '.' :: rest => do
    let (n, after) ← readDigits 9 rest
    let count := rest.length - after.length
    return (n * Nat.pow 10 (9 - count), after.dropWhile Char.isDigit)
  | cs => some (0, cs)

def twoDigits (cs : List Char) : Option (Nat × List Char) :=
  match cs with
  | a :: b :: rest =>
    if a.isDigit && b.isDigit then
      some (Decimal.digitValue a * 10 + Decimal.digitValue b, rest)
    else none
  | _ => none

/-- An offset from UTC in minutes: a letter, a word, or signed hours and minutes. -/
def readOffset (cs : List Char) : Option (Int × List Char) := do
  match cs with
  | 'Z' :: rest => return (0, rest)
  | 'z' :: rest => return (0, rest)
  | sign :: rest =>
    if (cs.take 3).map Char.toUpper = ['U', 'T', 'C'] then return (0, cs.drop 3)
    let negative ←
      if sign = '+' then some false
      else if sign = '-' || sign = '\u2212' then some true
      else none
    let (hours, rest) ← twoDigits rest
    let (minutes, rest) ← twoDigits (rest.dropWhile fun c => c == ':' || Text.isBlank c)
    if 60 ≤ minutes ∨ 24 ≤ hours then none
    else
      let total : Int := hours * 60 + minutes
      return (if negative then -total else total, rest)
  | [] => none

/-- What may stand between date and time. -/
def isDateEnd (c : Char) : Bool := c == 'T' || c == 't' || c == ' '

def ofChars? (cs : List Char) : Option Timestamp := do
  let (year, cs) ← readYear cs
  let cs ← readMark '-' cs
  let (month, cs) ← readPart 2 cs
  let cs ← readMark '-' cs
  let (day, cs) ← readPart 2 cs
  let cs ←
    match cs with
    | c :: rest => if isDateEnd c then some rest else none
    | [] => none
  let (hour, cs) ← readPart 2 cs
  let cs ← readMark ':' cs
  let (minute, cs) ← readPart 2 cs
  let cs ← readMark ':' cs
  let (second, cs) ← readPart 2 cs
  let (nanosecond, cs) ← readFraction cs
  let (offset, cs) ← readOffset (Text.trimStart cs)
  let written : Timestamp := { year, month, day, hour, minute, second, nanosecond }
  if written.isValid ∧ (Text.trimStart cs).isEmpty then
    return if offset = 0 then written else written.removeOffset offset
  else none

def parse? (text : String) : Option Timestamp := ofChars? text.toList

def toJson (t : Timestamp) : Json := .string t.toText

def decode : Json.Decode Timestamp
  | .string s =>
    match parse? s with
    | some t => .ok t
    | none => .error (.malformed "timestamp")
  | _ => .error (.wrongKind "a timestamp")

end Timestamp

end WorkflowEngine
