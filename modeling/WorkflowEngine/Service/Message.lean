import WorkflowEngine.Http.MediaType
import WorkflowEngine.Json.Decode
import WorkflowEngine.Json.Loose
import WorkflowEngine.Text.Percent

/-!
# Requests to the service and its responses

Addresses, queries and bodies of requests are read here. A body counts only if its content type is JSON
and it is not too long.
-/
namespace WorkflowEngine

namespace Service

/-- A request as it arrives. -/
structure Request where
  method : String := "GET"
  /-- Path and query as they were sent. -/
  target : String := "/"
  headers : List (String × String) := []
  body : Bytes := []
  deriving Inhabited

inductive Content where
  | empty
  | json (json : Json)
  | text (text : String)
  deriving Inhabited

structure Response where
  status : Nat
  content : Content
  deriving Inhabited

namespace Response

def empty (status : Nat) : Response := ⟨status, .empty⟩

def ok (json : Json) : Response := ⟨200, .json json⟩

/-- A response that tells what is wrong. -/
def failure (status : Nat) (message : String) : Response :=
  ⟨status, .json (.object [("error", .string message)])⟩

end Response

/-- Why a body is not the value asked for. -/
inductive BodyError where
  | contentType
  | tooLong
  | unreadable (cause : DecodeError)

namespace BodyError

def status : BodyError → Nat
  | .tooLong => 413
  | _ => 400

def message : BodyError → String
  | .contentType => "Content type error"
  | .tooLong => "JSON payload has exceeded limit"
  | .unreadable cause => "Json deserialize error: " ++ cause.message

def response (e : BodyError) : Response := ⟨e.status, .text e.message⟩

end BodyError

/-- Bytes of the longest JSON body: two mebibytes. -/
def bodyLimit : Nat := 2 * 1024 * 1024

namespace Request

/-- The first header of a name. -/
def header? (request : Request) (name : String) : Option String :=
  (request.headers.find? fun header => Http.lowerName header.1 == name).map (·.2)

/-- A header that is visible ASCII. -/
def asciiHeader? (request : Request) (name : String) : Option String :=
  (request.header? name).filter fun value =>
    value.toList.all fun c => c == '\t' || (32 ≤ c.toNat && c.toNat < 127)

/-- The target without a fragment. -/
def place (request : Request) : List Char := request.target.toList.takeWhile (· ≠ '#')

/-- Bytes that stay escaped until the path is split: the percent sign, the slash and the plus sign. -/
def keptInPath : List UInt8 := [0x25, 0x2F, 0x2B]

/-- The parts of the path between slashes, with some escapes left. The path starts with a slash. -/
def segments? (request : Request) : Option (List String) :=
  let path := String.ofList (request.place.takeWhile (· ≠ '?'))
  match (Percent.undo keptInPath (Bytes.ofText path)).lossyText.splitOn "/" with
  | "" :: segments => some segments
  | _ => none

/-- The pairs of the query. -/
def query (request : Request) : List (String × String) :=
  Percent.formPairs (String.ofList ((request.place.dropWhile (· ≠ '?')).drop 1))

/-- Does the request say that its body is JSON? -/
def hasJson (request : Request) : Bool :=
  ((request.asciiHeader? "content-type").bind MediaType.parse?).any MediaType.isJson

/-- The body as a typed value. -/
def decode {α : Type} (request : Request) (item : Json.Decode α) : Except BodyError α :=
  if !request.hasJson then .error .contentType
  else if bodyLimit < request.body.length then .error .tooLong
  else
    match Bytes.text? request.body with
    | none => .error (.unreadable (.malformed "text"))
    | some text => (Json.decodeText item text).mapError .unreadable

end Request

end Service

end WorkflowEngine
