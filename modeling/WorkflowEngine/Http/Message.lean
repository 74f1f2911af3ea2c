import WorkflowEngine.Http.Url

/-!
# Requests and responses

A client is a function from requests to what became of them, so that nothing here depends on a
network. Building a request fails on an address or a header that cannot be sent.
-/
namespace WorkflowEngine

structure HttpRequest where
  method : String
  url : Url
  /-- Names in lower case. -/
  headers : List (String × String)
  body : String
  deriving DecidableEq, Inhabited

/-- What becomes of a request. -/
inductive HttpExchange where
  /-- No response arrived. -/
  | failed (cause : String)
  /-- A response whose body ended too early. -/
  | cut (cause : String)
  | answered (status : Nat) (headers : List (String × Bytes)) (body : Bytes)

abbrev HttpClient := HttpRequest → HttpExchange

namespace HttpClient

/-- A client without a network. -/
def offline : HttpClient := fun _ => .failed "no connection"

end HttpClient

namespace Http

/-- Characters of a header name besides letters and digits. -/
def nameMarks : List Char :=
  ['!', '#', '$', '%', '&', '\x27', '*', '+', '-', '.', '^', '_', '\x60', '|', '~']

def isNameValid (name : String) : Bool :=
  name ≠ "" && name.toList.all fun c => c.isAlphanum || nameMarks.contains c

/-- A value may hold everything but control characters; tabs are fine. -/
def isValueValid (value : String) : Bool :=
  value.toList.all fun c => c == '\t' || (0x20 ≤ c.toNat && c.toNat ≠ 0x7F)

def lowerName (name : String) : String := String.ofList (name.toList.map Char.toLower)

/-- A header value as text: empty unless it is visible ASCII. -/
def headerText (value : Bytes) : String :=
  if value.all fun b => b == 9 || (32 ≤ b && b < 127) then (Bytes.text? value).getD "" else ""

/-- The reasons of server errors. -/
def serverErrors : List (Nat × String) :=
  [(500, "Internal Server Error"), (501, "Not Implemented"), (502, "Bad Gateway"),
    (503, "Service Unavailable"), (504, "Gateway Timeout"), (505, "HTTP Version Not Supported"),
    (506, "Variant Also Negotiates"), (507, "Insufficient Storage"), (508, "Loop Detected"),
    (510, "Not Extended"), (511, "Network Authentication Required")]

def isServerError (status : Nat) : Bool := 500 ≤ status && status < 600

/-- The code and reason of a server error. -/
def statusText (status : Nat) : String :=
  toString status ++ " " ++
    ((serverErrors.find? (·.1 == status)).map (·.2)).getD "<unknown status code>"

end Http

end WorkflowEngine
