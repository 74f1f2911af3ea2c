import WorkflowEngine.Http.Message
import WorkflowEngine.Json.Loose

/-!
# Scripted servers

A client that reaches a server with one fixed answer, in place of a network. The answer is sent with
the length of its body, of which the last part may be missing, and the connection is closed after it.
-/
namespace WorkflowEngine

/-- What a scripted server does. -/
structure ScriptedAnswer where
  status : Nat := 200
  headers : List (String × String) := []
  body : String := ""
  /-- Close the connection without an answer. -/
  hangUp : Bool := false
  /-- Bytes that are announced but not sent. -/
  cut : Nat := 0
  deriving Inhabited

namespace ScriptedAnswer

def ofJson (json : Json) : ScriptedAnswer where
  status := json.natAt "status" 200
  headers := json.pairsAt "headers" Json.asText? Json.asText?
  body := json.textAt "body"
  hangUp := json.flagAt "hang_up"
  cut := json.natAt "cut"

def isBlank (c : Char) : Bool := c == ' ' || c == '\t'

/-- A header value without the blanks around it. -/
def trimmed (value : String) : Bytes :=
  Bytes.ofText (String.ofList
    ((value.toList.dropWhile isBlank).reverse.dropWhile isBlank).reverse)

/-- Is the answer a response that a client can make sense of, and a final one? -/
def isSound (answer : ScriptedAnswer) : Bool :=
  !answer.hangUp && (answer.status == 101 || (200 ≤ answer.status && answer.status ≤ 999)) &&
    answer.headers.all fun (name, value) => Http.isNameValid name && Http.isValueValid value

/-- Responses that never have a body. -/
def isBodiless (answer : ScriptedAnswer) : Bool := [101, 204, 304].contains answer.status

def exchange (answer : ScriptedAnswer) : HttpExchange :=
  if !answer.isSound then .failed "no answer"
  else if answer.isBodiless then .answered answer.status (sentHeaders answer) []
  else if answer.cut > 0 then .cut "the body ended too early"
  else .answered answer.status (sentHeaders answer) (Bytes.ofText answer.body)
where
  /-- The given headers, then the length and the end of the connection. -/
  sentHeaders (answer : ScriptedAnswer) : List (String × Bytes) :=
    let length := (Bytes.ofText answer.body).length + answer.cut
    (answer.headers ++
      [("content-length", toString length), ("connection", "close")]).map fun (name, value) =>
        (name, trimmed value)

end ScriptedAnswer

/-- A client that reaches a scripted server, or none. The server speaks in the clear only. -/
def HttpClient.scripted (answer : Option ScriptedAnswer) : HttpClient := fun request =>
  match answer with
  | some answer => if request.url.secure then .failed "no secure connection" else answer.exchange
  | none => .failed "connection refused"

/-- A request as JSON, with the content type and the headers of the given names. -/
def HttpRequest.toJson (request : HttpRequest) (names : List String) : Json :=
  let shown := request.headers.filter fun (name, _) => ("content-type" :: names).contains name
  .object [
    ("method", .string request.method),
    ("path", .string request.url.target),
    ("headers", .object (Fields.ofEntries (shown.map fun (name, value) => (name, Json.string value)))),
    ("body", .string request.body)]

end WorkflowEngine
