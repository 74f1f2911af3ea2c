import WorkflowEngine.Json.Decode
import WorkflowEngine.Text.Hex

/-!
# Identifiers of executions and checkpoints

A universally unique identifier is held as its 32 hexadecimal digits. It is written in lower case with
hyphens, and read in the plain, hyphenated, braced and name forms, in either case.
-/
namespace WorkflowEngine

structure Uuid where
  digits : List (Fin 16)
  length_eq : digits.length = 32
  deriving DecidableEq

namespace Uuid

/-- The lowest `count` hexadecimal digits of a number, most significant first. -/
def hexDigits : (count : Nat) → Nat → List (Fin 16)
  | 0, _ => []
  | count + 1, n => hexDigits count (n / 16) ++ [Fin.ofNat 16 n]

theorem length_hexDigits (count n : Nat) : (hexDigits count n).length = count := by
  induction count generalizing n with
  | zero => rfl
  | succ count ih => simp [hexDigits, ih]

/-- The identifier whose digits spell a number. -/
def ofNat (n : Nat) : Uuid := ⟨hexDigits 32 n, length_hexDigits 32 n⟩

/-- All digits zero. -/
def nil : Uuid := ofNat 0

instance : Inhabited Uuid := ⟨nil⟩

/-- A version 4 identifier carrying 122 given bits: one digit tells the version, the upper half of
another the variant. -/
def version4 (bits : Nat) : Uuid where
  digits := hexDigits 12 (bits >>> 74) ++ 4 :: hexDigits 3 (bits >>> 62) ++
    Fin.ofNat 16 (8 + (bits >>> 60) % 4) :: hexDigits 15 bits
  length_eq := by simp [length_hexDigits]

def digitChars (id : Uuid) : List Char := id.digits.map fun d => Hex.digit d.val

/-- Lower case digits in groups of eight, four, four, four and twelve. -/
def chars (id : Uuid) : List Char :=
  let cs := id.digitChars
  cs.take 8 ++ '-' :: (cs.drop 8).take 4 ++ '-' :: (cs.drop 12).take 4 ++
    '-' :: (cs.drop 16).take 4 ++ '-' :: cs.drop 20

def toText (id : Uuid) : String := String.ofList id.chars

instance : ToString Uuid := ⟨toText⟩

def ofDigitChars? (cs : List Char) : Option Uuid :=
  match cs.mapM fun c => (Hex.value? c).map (Fin.ofNat 16) with
  | none => none
  | some ds => if h : ds.length = 32 then some ⟨ds, h⟩ else none

/-- The hyphenated form. -/
def ofHyphenated? (cs : List Char) : Option Uuid :=
  if cs.length = 36 && [8, 13, 18, 23].all (fun place => cs[place]? == some '-') then
    ofDigitChars? (cs.take 8 ++ (cs.drop 9).take 4 ++ (cs.drop 14).take 4 ++
      (cs.drop 19).take 4 ++ cs.drop 24)
  else none

/-- What stands before the hyphenated form of an identifier used as a name. -/
def nameMark : List Char := "urn:uuid:".toList

def ofChars? (cs : List Char) : Option Uuid :=
  if cs.length = 32 then ofDigitChars? cs
  else if cs.length = 36 then ofHyphenated? cs
  else if cs.length = 38 && cs.head? == some '\x7b' && cs.getLast? == some '\x7d' then
    ofHyphenated? ((cs.drop 1).take 36)
  else if nameMark.isPrefixOf cs then ofHyphenated? (cs.drop nameMark.length)
  else none

def parse? (text : String) : Option Uuid := ofChars? text.toList

def toJson (id : Uuid) : Json := .string id.toText

def decode : Json.Decode Uuid
  | .string s =>
    match parse? s with
    | some id => .ok id
    | none => .error (.malformed "identifier")
  | _ => .error (.wrongKind "an identifier")

end Uuid

end WorkflowEngine
