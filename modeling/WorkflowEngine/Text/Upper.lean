/-!
# Upper case

Upper case for the Latin, Greek and Cyrillic letters that have a simple one; other characters stay.
The sharp s becomes two letters.
-/
namespace WorkflowEngine

namespace Text

/-- Ranges of lower case letters and what is taken away to reach their upper case. -/
def shiftedRanges : List (Nat × Nat × Nat) :=
  [(0x61, 0x7A, 0x20), (0xE0, 0xF6, 0x20), (0xF8, 0xFE, 0x20), (0x3B1, 0x3C1, 0x20),
    (0x3C3, 0x3CB, 0x20), (0x430, 0x44F, 0x20), (0x450, 0x45F, 0x50), (0x561, 0x586, 0x30)]

/-- Ranges in which each even code point is the upper case of the next. -/
def evenRanges : List (Nat × Nat) :=
  [(0x100, 0x12F), (0x132, 0x137), (0x14A, 0x177), (0x1E00, 0x1E95), (0x460, 0x481), (0x48A, 0x4BF)]

/-- Ranges in which each odd code point is the upper case of the next. -/
def oddRanges : List (Nat × Nat) := [(0x139, 0x148), (0x179, 0x17E)]

/-- Letters with an upper case elsewhere. -/
def singleUpper : List (Nat × List Nat) :=
  [(0xDF, [0x53, 0x53]), (0xFF, [0x178]), (0xB5, [0x39C]), (0x131, [0x49]), (0x17F, [0x53]),
    (0x3C2, [0x3A3]), (0x3AC, [0x386]), (0x3AD, [0x388]), (0x3AE, [0x389]), (0x3AF, [0x38A]),
    (0x3CC, [0x38C]), (0x3CD, [0x38E]), (0x3CE, [0x38F])]

def upperChar (c : Char) : List Char :=
  let n := c.toNat
  match singleUpper.find? (·.1 == n) with
  | some (_, upper) => upper.map Char.ofNat
  | none =>
    match shiftedRanges.find? fun (first, last, _) => first ≤ n && n ≤ last with
    | some (_, _, shift) => [Char.ofNat (n - shift)]
    | none =>
      if evenRanges.any fun (first, last) => first ≤ n && n ≤ last then
        [Char.ofNat (n - n % 2)]
      else if oddRanges.any fun (first, last) => first ≤ n && n ≤ last then
        [if n % 2 = 0 then Char.ofNat (n - 1) else c]
      else [c]

def upper (text : String) : String := String.ofList (text.toList.flatMap upperChar)

end Text

end WorkflowEngine
