import WorkflowEngine.Event.Codec
import WorkflowEngine.Json.Loose
import WorkflowEngine.Service.Message
import WorkflowEngine.Service.Socket

/-!
# Frames and responses as JSON

A frame of a client is a pair of its kind and its text, a frame of the service an object with its kind.
The content of a response that is not JSON is not told.
-/
namespace WorkflowEngine

namespace Service

namespace ClientFrame

def ofJson? (json : Json) : Option ClientFrame :=
  let text := (json.items[1]?.bind Json.asText?).getD ""
  match json.items[0]?.bind Json.asText? with
  | some "ping" => some (.ping text)
  | some "pong" => some (.pong text)
  | some "text" => some (.text text)
  | some "close" => some .close
  | _ => none

end ClientFrame

namespace ServerFrame

def toJson : ServerFrame → Json
  | .event published => .object [("text", published.toJson)]
  | .pong text => .object [("pong", .string text)]
  | .close => .object [("close", .bool true)]

end ServerFrame

namespace Content

def toJson : Content → Json
  | .empty => .null
  | .text _ => .string "<text>"
  | .json tree => tree

end Content

/-- What a client adds to a request in order to upgrade its connection. -/
def upgradeHeaders : List (String × String) := [
  ("connection", "upgrade"),
  ("upgrade", "websocket"),
  ("sec-websocket-version", "13"),
  ("sec-websocket-key", "dGhlIHNhbXBsZSBub25jZQ==")]

namespace Request

/-- A request by its settings: method, path, headers, and a body that is JSON or a text. -/
def ofJson (json : Json) : Request :=
  let (body, type) :=
    match json.field? "json" with
    | some body => (body.compact, some (json.textAt "content_type" "application/json"))
    | none => (json.textAt "body", json.textAt? "content_type")
  { method := json.textAt "method" "GET"
    target := json.textAt "path" "/"
    headers := (type.map fun type => ("content-type", type)).toList ++
      json.pairsAt "headers" Json.asText? Json.asText?
    body := Bytes.ofText body }

end Request

end Service

end WorkflowEngine
