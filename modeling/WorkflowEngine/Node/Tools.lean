import WorkflowEngine.Fields

/-!
# Tool handles

Shared handles that every node can look up by name and kind. The engine passes them on and never looks
inside.
-/
namespace WorkflowEngine

inductive ToolHandle where
  | text (value : String)
  | number (value : Int)
  deriving DecidableEq, Inhabited

/-- Handles by name. -/
abbrev Tools := Fields ToolHandle

namespace Tools

/-- The handle under a name, if it is a text. -/
def text? (tools : Tools) (name : String) : Option String :=
  match tools.get? name with
  | some (.text value) => some value
  | _ => none

/-- The handle under a name, if it is a number. -/
def number? (tools : Tools) (name : String) : Option Int :=
  match tools.get? name with
  | some (.number value) => some value
  | _ => none

/-- Code points that a quoted name shows by number: controls, marks that attach to what stands before
them, and characters without a shape. -/
def hiddenRanges : List (Nat × Nat) :=
  [(0x00, 0x1F), (0x7F, 0x9F), (0xAD, 0xAD), (0x300, 0x36F), (0x200B, 0x200F), (0x2028, 0x202E),
    (0x2060, 0x206F), (0xE000, 0xF8FF), (0xFE00, 0xFE0F), (0xFEFF, 0xFEFF), (0xFFF0, 0xFFFB)]

/-- A character of a quoted name. -/
def quotedChar (c : Char) : List Char :=
  match c with
  | '"' => ['\\', '"']
  | '\\' => ['\\', '\\']
  | '\n' => ['\\', 'n']
  | '\r' => ['\\', 'r']
  | '\t' => ['\\', 't']
  | '\x00' => ['\\', '0']
  | c =>
    if hiddenRanges.any fun (first, last) => first ≤ c.toNat && c.toNat ≤ last then
      '\\' :: 'u' :: '\x7b' :: (Nat.toDigits 16 c.toNat ++ ['\x7d'])
    else [c]

def quotedName (name : String) : String :=
  String.ofList ('"' :: (name.toList.flatMap quotedChar ++ ['"']))

/-- The names of the handles, for diagnostics. -/
def describe (tools : Tools) : String :=
  "ToolHandles \x7b names: [" ++ ", ".intercalate (tools.keys.map quotedName) ++ "] \x7d"

end Tools

end WorkflowEngine
