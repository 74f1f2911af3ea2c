/-!
# Hexadecimal digits

Digits of either case are read; lower case is written. Used by quoted text, identifiers and escaped
addresses.
-/
namespace WorkflowEngine

namespace Hex

/-- Value of a hexadecimal digit of either case. -/
def value? (c : Char) : Option Nat :=
  if '0' ≤ c ∧ c ≤ '9' then some (c.toNat - '0'.toNat)
  else if 'a' ≤ c ∧ c ≤ 'f' then some (c.toNat - 'a'.toNat + 10)
  else if 'A' ≤ c ∧ c ≤ 'F' then some (c.toNat - 'A'.toNat + 10)
  else none

/-- The lower case digit of a value below 16. -/
def digit (n : Nat) : Char := Nat.digitChar (n % 16)

/-- The lowest `width` digits of a number, most significant first. -/
def digits : (width : Nat) → Nat → List Char
  | 0, _ => []
  | width + 1, n => digits width (n / 16) ++ [digit n]

/-- Value of a row of digits, most significant first. -/
def read? (cs : List Char) : Option Nat :=
  cs.foldl (fun acc c => do return (← acc) * 16 + (← value? c)) (some 0)

end Hex

end WorkflowEngine
