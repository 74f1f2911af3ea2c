import WorkflowEngine.Json.Basic
import WorkflowEngine.Number.Decimal
import WorkflowEngine.Text.Hex

/-!
# Writing JSON text

Two layouts: compact, and pretty with two blanks per level, where empty containers stay closed up.
Entries are written in the order they are held. Quoted text escapes the quote, the backslash and
control characters only.
-/
namespace WorkflowEngine

namespace Json

/-- How one character stands between quotes. -/
def escapeChar (c : Char) : List Char :=
  match c with
  | '"' => ['\\', '"']
  | '\\' => ['\\', '\\']
  | '\x08' => ['\\', 'b']
  | '\x0c' => ['\\', 'f']
  | '\n' => ['\\', 'n']
  | '\r' => ['\\', 'r']
  | '\t' => ['\\', 't']
  | c => if c.toNat < 0x20 then '\\' :: 'u' :: Hex.digits 4 c.toNat else [c]

def quote (s : String) : List Char :=
  '"' :: (s.toList.flatMap escapeChar ++ ['"'])

def Number.write : Number → List Char
  | .integer i => (if i < 0 then ['-'] else []) ++ Nat.toDigits 10 i.natAbs
  | .float x => if x.isFinite then Decimal.write x else ['n', 'u', 'l', 'l']

mutual

def compactChars : Json → List Char
  | .null => ['n', 'u', 'l', 'l']
  | .bool true => ['t', 'r', 'u', 'e']
  | .bool false => ['f', 'a', 'l', 's', 'e']
  | .number n => n.write
  | .string s => quote s
  | .array [] => ['[', ']']
  | .array (item :: items) => '[' :: (compactChars item ++ compactItems items)
  | .object [] => ['\x7b', '\x7d']
  | .object ((name, value) :: entries) =>
    '\x7b' :: (quote name ++ ':' :: (compactChars value ++ compactEntries entries))

/-- The items after the first, and the closing bracket. -/
def compactItems : List Json → List Char
  | [] => [']']
  | item :: items => ',' :: (compactChars item ++ compactItems items)

/-- The entries after the first, and the closing brace. -/
def compactEntries : List (String × Json) → List Char
  | [] => ['\x7d']
  | (name, value) :: entries =>
    ',' :: (quote name ++ ':' :: (compactChars value ++ compactEntries entries))

end

/-- A new line and the blanks of a level. -/
def indent (level : Nat) : List Char := '\n' :: List.replicate (2 * level) ' '

mutual

/-- A tree at a level, without the blanks before its first character. -/
def prettyChars (level : Nat) : Json → List Char
  | .null => ['n', 'u', 'l', 'l']
  | .bool true => ['t', 'r', 'u', 'e']
  | .bool false => ['f', 'a', 'l', 's', 'e']
  | .number n => n.write
  | .string s => quote s
  | .array [] => ['[', ']']
  | .array (item :: items) =>
    '[' :: (indent (level + 1) ++ (prettyChars (level + 1) item ++ prettyItems level items))
  | .object [] => ['\x7b', '\x7d']
  | .object ((name, value) :: entries) =>
    '\x7b' :: (indent (level + 1) ++
      (quote name ++ ':' :: ' ' :: (prettyChars (level + 1) value ++ prettyEntries level entries)))

/-- The items after the first, and the closing bracket at `level`. -/
def prettyItems (level : Nat) : List Json → List Char
  | [] => indent level ++ [']']
  | item :: items =>
    ',' :: (indent (level + 1) ++ (prettyChars (level + 1) item ++ prettyItems level items))

/-- The entries after the first, and the closing brace at `level`. -/
def prettyEntries (level : Nat) : List (String × Json) → List Char
  | [] => indent level ++ ['\x7d']
  | (name, value) :: entries =>
    ',' :: (indent (level + 1) ++
      (quote name ++ ':' :: ' ' :: (prettyChars (level + 1) value ++ prettyEntries level entries)))

end

def compact (json : Json) : String := String.ofList (compactChars json)

def pretty (json : Json) : String := String.ofList (prettyChars 0 json)

end Json

end WorkflowEngine
