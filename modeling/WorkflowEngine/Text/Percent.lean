import WorkflowEngine.Text.Hex
import WorkflowEngine.Text.Utf8

/-!
# Percent escapes

In addresses and in form data a percent sign and two hexadecimal digits stand for one byte. What is not
an escape stands for itself, and so does an escape of a byte that is to be kept escaped.
-/
namespace WorkflowEngine

namespace Percent

/-- The byte that two digits spell. -/
def byte? (high low : UInt8) : Option UInt8 :=
  (Hex.read? [Char.ofNat high.toNat, Char.ofNat low.toNat]).map UInt8.ofNat

/-- Undo escapes, apart from those of some bytes. -/
def undo (kept : List UInt8) : Bytes → Bytes
  | [] => []
  | [a] => [a]
  | [a, b] => [a, b]
  | a :: b :: c :: rest =>
    match if a == 0x25 then byte? b c else none with
    | some byte =>
      if kept.contains byte then a :: undo kept (b :: c :: rest) else byte :: undo kept rest
    | none => a :: undo kept (b :: c :: rest)

/-- Undo all escapes of a text. -/
def undoText (text : String) : String := (undo [] (Bytes.ofText text)).lossyText

/-- The text of a name or a value in form data, where a plus sign stands for a blank. -/
def formText (cs : List Char) : String :=
  undoText (String.ofList (cs.map fun c => if c == '+' then ' ' else c))

/-- The pairs of form data. A name without a value has an empty one. -/
def formPairs (text : String) : List (String × String) :=
  ((text.splitOn "&").filter (· ≠ "")).map fun pair =>
    let cs := pair.toList
    (formText (cs.takeWhile (· ≠ '=')), formText ((cs.dropWhile (· ≠ '=')).drop 1))

end Percent

end WorkflowEngine
