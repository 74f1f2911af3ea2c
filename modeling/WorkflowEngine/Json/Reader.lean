import WorkflowEngine.Json.Basic
import WorkflowEngine.Number.Decimal
import WorkflowEngine.Text.Hex

/-!
# Reading JSON text

A strict reader for RFC 8259: only the four blank characters, no leading zeros, no trailing commas,
no unpaired surrogate escapes, nothing after the value. Arrays and objects may be nested 127 deep, and
a number whose magnitude exceeds binary64 is refused.
-/
namespace WorkflowEngine

/-- Why a text is not JSON, or not JSON this library accepts. -/
inductive Json.ReadError where
  | unexpectedEnd
  | unexpectedCharacter (c : Char)
  | controlCharacter
  | invalidEscape
  | loneSurrogate
  | invalidNumber
  | numberOutOfRange
  | tooDeep
  | trailingCharacters
  deriving DecidableEq, Inhabited

namespace Json

def ReadError.message : ReadError → String
  | .unexpectedEnd => "unexpected end of text"
  | .unexpectedCharacter c => "unexpected character " ++ c.toString
  | .controlCharacter => "control character in a string"
  | .invalidEscape => "invalid escape"
  | .loneSurrogate => "unpaired surrogate escape"
  | .invalidNumber => "invalid number"
  | .numberOutOfRange => "number out of range"
  | .tooDeep => "nested too deeply"
  | .trailingCharacters => "trailing characters"

/-- Arrays and objects nested deeper than this are refused. -/
def depthLimit : Nat := 127

def isBlank (c : Char) : Bool := c == ' ' || c == '\t' || c == '\n' || c == '\r'

def skipBlank (cs : List Char) : List Char := cs.dropWhile isBlank

/-- A piece of a quoted text: a character, or a code unit given by four hexadecimal digits. -/
inductive Piece where
  | char (c : Char)
  | unit (u : Nat)

/-- The character a one-letter escape stands for. -/
def simpleEscape? : Char → Option Char
  | '"' => some '"'
  | '\\' => some '\\'
  | '/' => some '/'
  | 'b' => some '\x08'
  | 'f' => some '\x0c'
  | 'n' => some '\n'
  | 'r' => some '\r'
  | 't' => some '\t'
  | _ => none

/-- The pieces up to the closing quote, and what follows it. -/
def readPieces : List Char → Except ReadError (List Piece × List Char)
  | [] => .error .unexpectedEnd
  | '"' :: rest => .ok ([], rest)
  | '\\' :: 'u' :: a :: b :: c :: d :: rest =>
    match Hex.read? [a, b, c, d] with
    | none => .error .invalidEscape
    | some u => do
      let (pieces, rest) ← readPieces rest
      return (.unit u :: pieces, rest)
  | '\\' :: c :: rest =>
    match simpleEscape? c with
    | none => .error .invalidEscape
    | some e => do
      let (pieces, rest) ← readPieces rest
      return (.char e :: pieces, rest)
  | c :: rest =>
    if c.toNat < 0x20 then .error .controlCharacter
    else do
      let (pieces, rest) ← readPieces rest
      return (.char c :: pieces, rest)

def isHighSurrogate (u : Nat) : Bool := 0xD800 ≤ u && u < 0xDC00

def isLowSurrogate (u : Nat) : Bool := 0xDC00 ≤ u && u < 0xE000

/-- Join surrogate pairs; every other code unit is a character by itself. -/
def assemble : List Piece → Except ReadError (List Char)
  | [] => .ok []
  | .char c :: rest => do return c :: (← assemble rest)
  | .unit u :: .unit v :: rest =>
    if isHighSurrogate u && isLowSurrogate v then do
      return Char.ofNat (0x10000 + (u - 0xD800) * 0x400 + (v - 0xDC00)) :: (← assemble rest)
    else if isHighSurrogate u || isLowSurrogate u then .error .loneSurrogate
    else do return Char.ofNat u :: (← assemble (.unit v :: rest))
  | .unit u :: rest =>
    if isHighSurrogate u || isLowSurrogate u then .error .loneSurrogate
    else do return Char.ofNat u :: (← assemble rest)

/-- A quoted text after its opening quote. -/
def readString (cs : List Char) : Except ReadError (String × List Char) := do
  let (pieces, rest) ← readPieces cs
  let chars ← assemble pieces
  return (String.ofList chars, rest)

/-- The parts of a number literal. -/
structure Literal where
  negative : Bool
  whole : List Char
  fraction : Option (List Char)
  /-- Sign and digits of the exponent. -/
  power : Option (Bool × List Char)

/-- Digits after a point, if there is one. -/
def readFraction : List Char → Except ReadError (Option (List Char) × List Char)
  | '.' :: rest =>
    match rest.takeWhile Char.isDigit with
    | [] => .error .invalidNumber
    | ds => .ok (some ds, rest.dropWhile Char.isDigit)
  | cs => .ok (none, cs)

/-- The sign and the digits of an exponent after its letter. -/
def readPowerDigits (negative : Bool) (cs : List Char) :
    Except ReadError (Option (Bool × List Char) × List Char) :=
  match cs.takeWhile Char.isDigit with
  | [] => .error .invalidNumber
  | ds => .ok (some (negative, ds), cs.dropWhile Char.isDigit)

def readPower : List Char → Except ReadError (Option (Bool × List Char) × List Char)
  | c :: rest =>
    if c == 'e' || c == 'E' then
      match rest with
      | '-' :: rest => readPowerDigits true rest
      | '+' :: rest => readPowerDigits false rest
      | rest => readPowerDigits false rest
    else .ok (none, c :: rest)
  | [] => .ok (none, [])

def readLiteral (cs : List Char) : Except ReadError (Literal × List Char) := do
  let (negative, cs) :=
    match cs with
    | '-' :: rest => (true, rest)
    | cs => (false, cs)
  match cs.takeWhile Char.isDigit with
  | [] => .error .invalidNumber
  | '0' :: _ :: _ => .error .invalidNumber
  | whole =>
    let (fraction, rest) ← readFraction (cs.dropWhile Char.isDigit)
    let (power, rest) ← readPower rest
    return (⟨negative, whole, fraction, power⟩, rest)

/-- Value of a row of decimal digits. -/
def naturalOf (digits : List Char) : Nat :=
  digits.foldl (fun n c => n * 10 + Decimal.digitValue c) 0

/-- Integers from the least signed to the greatest unsigned 64-bit one are kept as they are; `-0` and
all else becomes a binary64 number. -/
def Literal.number? (l : Literal) : Option Number :=
  let natural := naturalOf l.whole
  if l.fraction.isNone && l.power.isNone &&
      (if l.negative then 0 < natural && 2 * natural ≤ UInt64.size else natural < UInt64.size) then
    some (.integer (if l.negative then -(natural : Int) else natural))
  else
    let (powerNegative, power) := l.power.getD (false, [])
    (Decimal.read l.negative l.whole (l.fraction.getD []) powerNegative (naturalOf power)).map .float

def readNumber (cs : List Char) : Except ReadError (Number × List Char) := do
  let (literal, rest) ← readLiteral cs
  match literal.number? with
  | some n => return (n, rest)
  | none => throw .numberOutOfRange

/-- The rest of a text after a fixed word. -/
def readWord (word : List Char) (value : Json) (cs : List Char) :
    Except ReadError (Json × List Char) :=
  if word.isPrefixOf cs then .ok (value, cs.drop word.length)
  else .error (match cs with | [] => .unexpectedEnd | c :: _ => .unexpectedCharacter c)

mutual

/-- A value at the start of the text, which is not blank; `depth` more levels may be opened. -/
def readValue : (fuel depth : Nat) → List Char → Except ReadError (Json × List Char)
  | 0, _, _ => .error .tooDeep
  | _ + 1, _, [] => .error .unexpectedEnd
  | fuel + 1, depth, c :: rest =>
    match c with
    | 'n' => readWord ['u', 'l', 'l'] .null rest
    | 't' => readWord ['r', 'u', 'e'] (.bool true) rest
    | 'f' => readWord ['a', 'l', 's', 'e'] (.bool false) rest
    | '"' => do
      let (s, rest) ← readString rest
      return (.string s, rest)
    | '[' =>
      match depth with
      | 0 => .error .tooDeep
      | depth + 1 =>
        match skipBlank rest with
        | ']' :: rest => .ok (.array [], rest)
        | rest => do
          let (items, rest) ← readItems fuel depth rest
          return (.array items, rest)
    | '\x7b' =>
      match depth with
      | 0 => .error .tooDeep
      | depth + 1 =>
        match skipBlank rest with
        | '\x7d' :: rest => .ok (.object [], rest)
        | rest => do
          let (entries, rest) ← readEntries fuel depth rest
          return (.object entries, rest)
    | c =>
      if c == '-' || c.isDigit then do
        let (n, rest) ← readNumber (c :: rest)
        return (.number n, rest)
      else .error (.unexpectedCharacter c)

/-- The items of an array up to its closing bracket; at least one. -/
def readItems : (fuel depth : Nat) → List Char → Except ReadError (List Json × List Char)
  | 0, _, _ => .error .tooDeep
  | fuel + 1, depth, cs => do
    let (item, rest) ← readValue fuel depth cs
    match skipBlank rest with
    | ',' :: rest =>
      let (items, rest) ← readItems fuel depth (skipBlank rest)
      return (item :: items, rest)
    | ']' :: rest => return ([item], rest)
    | [] => throw .unexpectedEnd
    | c :: _ => throw (.unexpectedCharacter c)

/-- The entries of an object up to its closing brace; at least one. -/
def readEntries : (fuel depth : Nat) → List Char →
    Except ReadError (List (String × Json) × List Char)
  | 0, _, _ => .error .tooDeep
  | fuel + 1, depth, cs =>
    match cs with
    | '"' :: rest => do
      let (name, rest) ← readString rest
      match skipBlank rest with
      | ':' :: rest =>
        let (value, rest) ← readValue fuel depth (skipBlank rest)
        match skipBlank rest with
        | ',' :: rest =>
          let (entries, rest) ← readEntries fuel depth (skipBlank rest)
          return ((name, value) :: entries, rest)
        | '\x7d' :: rest => return ([(name, value)], rest)
        | [] => throw .unexpectedEnd
        | c :: _ => throw (.unexpectedCharacter c)
      | [] => throw .unexpectedEnd
      | c :: _ => throw (.unexpectedCharacter c)
    | [] => .error .unexpectedEnd
    | c :: _ => .error (.unexpectedCharacter c)

end

/-- Every step of the reader leaves at least half a character behind, so this fuel never runs out. -/
def readFuel (cs : List Char) : Nat := 2 * cs.length + 2

/-- The one value a text consists of. -/
def readChars (cs : List Char) : Except ReadError Json := do
  let (value, rest) ← readValue (readFuel cs) depthLimit (skipBlank cs)
  match skipBlank rest with
  | [] => return value
  | _ => throw .trailingCharacters

def read (text : String) : Except ReadError Json := readChars text.toList

end Json

end WorkflowEngine
