/-!
# Bytes of texts

Files and messages are rows of bytes; texts travel in UTF-8. Where bytes that are not UTF-8 have to be
shown as a text all the same, each longest row of them that begins a character, or each one that does
not, is shown as the replacement character.
-/
namespace WorkflowEngine

abbrev Bytes := List UInt8

namespace Bytes

def ofText (text : String) : Bytes := text.toUTF8.toList

/-- The text, if the bytes are UTF-8. -/
def text? (bytes : Bytes) : Option String := String.fromUTF8? bytes.toByteArray

/-- The ranges of the bytes that follow the first byte of a character; nothing, if it begins none. -/
def followers? (first : UInt8) : Option (List (UInt8 × UInt8)) :=
  let any : UInt8 × UInt8 := (0x80, 0xBF)
  if first < 0x80 then some []
  else if first < 0xC2 then none
  else if first < 0xE0 then some [any]
  else if first == 0xE0 then some [(0xA0, 0xBF), any]
  else if first == 0xED then some [(0x80, 0x9F), any]
  else if first < 0xF0 then some [any, any]
  else if first == 0xF0 then some [(0x90, 0xBF), any, any]
  else if first < 0xF4 then some [any, any, any]
  else if first == 0xF4 then some [(0x80, 0x8F), any, any]
  else none

/-- How many bytes lie in the ranges, one after the other. -/
def countIn : List (UInt8 × UInt8) → Bytes → Nat
  | [], _ => 0
  | _, [] => 0
  | (low, high) :: ranges, b :: rest =>
    if low ≤ b && b ≤ high then countIn ranges rest + 1 else 0

def lossyChars : Bytes → List Char
  | [] => []
  | b :: rest =>
    match followers? b with
    | none => '\ufffd' :: lossyChars rest
    | some ranges =>
      let taken := countIn ranges rest
      let shown :=
        if taken = ranges.length then
          (((text? (b :: rest.take taken)).map String.toList).getD ['\ufffd'])
        else ['\ufffd']
      shown ++ lossyChars (rest.drop taken)
termination_by bytes => bytes.length
decreasing_by
  · simp
  · simp only [List.length_drop, List.length_cons]
    omega

/-- The text of any bytes. -/
def lossyText (bytes : Bytes) : String := String.ofList (lossyChars bytes)

end Bytes

end WorkflowEngine
