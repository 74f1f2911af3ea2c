/-!
# Padding

Texts brought to a least width with blanks. A text that is longer stays as it is.
-/
namespace WorkflowEngine

namespace Text

def blanks (count : Nat) : String := String.ofList (List.replicate count ' ')

def padRight (width : Nat) (text : String) : String := text ++ blanks (width - text.length)

def padLeft (width : Nat) (text : String) : String := blanks (width - text.length) ++ text

/-- The odd blank goes to the right. -/
def padCenter (width : Nat) (text : String) : String :=
  let missing := width - text.length
  blanks (missing / 2) ++ text ++ blanks (missing - missing / 2)

end Text

end WorkflowEngine
