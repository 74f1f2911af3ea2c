import WorkflowEngine.Http.Charset
import WorkflowEngine.Node.Basic
import WorkflowEngine.Text.Upper

/-!
# Requests over HTTP

`http.request` sends one request and stores the response under a key as status, body and headers.
Address and body come from the configuration or else from the context. What fails on the way, and
every answer of a server error, is transient; other answers are for later nodes to judge.
-/
namespace WorkflowEngine

namespace HttpNode

def methods : List String := ["GET", "POST", "PUT", "PATCH", "DELETE"]

/-- A configuration value, or else a context value. -/
def configOrContext (ctx : NodeContext) (name : String) : Option Value :=
  ctx.config.get? name <|> ctx.context.get? name

def address (ctx : NodeContext) : Except NodeError String :=
  match configOrContext ctx "url" with
  | none => .error (.missingInput "url")
  | some value =>
    match value.asString? with
    | some url => .ok url
    | none => .error (.invalidInputType "url" "string" "other")

def method (ctx : NodeContext) : String :=
  Text.upper (((ctx.configOr "method" (.string "GET")).asString?).getD "GET")

/-- The context key for the response. -/
def target (ctx : NodeContext) : String :=
  ((ctx.config.get? "target").bind Value.asString?).getD "response"

/-- The configured headers that are texts. -/
def textHeaders (ctx : NodeContext) : List (String × String) :=
  match ctx.config.get? "headers" with
  | some (.object fields) =>
    fields.filterMap fun (name, value) => value.asString?.map fun text => (name, text)
  | _ => []

/-- The request, with a reason if it cannot be sent. A body that is not a text is sent as JSON. -/
def build (ctx : NodeContext) (method url : String) : Except String HttpRequest := do
  let some url := Url.parse? url | throw "builder error"
  let headers := textHeaders ctx
  if !headers.all fun (name, value) => Http.isNameValid name && Http.isValueValid value then
    throw "builder error"
  let headers := headers.map fun (name, value) => (Http.lowerName name, value)
  match configOrContext ctx "body" with
  | none | some .null => return { method, url, headers, body := "" }
  | some (.string body) => return { method, url, headers, body }
  | some value =>
    let typed :=
      if headers.any (·.1 == "content-type") then headers
      else headers ++ [("content-type", "application/json")]
    return { method, url, headers := typed, body := value.toJson.compact }

/-- The value stored for a response. -/
def responseValue (status : Nat) (headers : List (String × Bytes)) (body : Bytes) : Value :=
  let headers := headers.map fun (name, value) => (Http.lowerName name, value)
  let text := Http.bodyText headers body
  let content :=
    match Json.read text with
    | .ok json => Value.ofJson json
    | .error _ => .string text
  .object (Fields.ofEntries [
    ("status", .ofInt status),
    ("body", content),
    ("headers", .object (Fields.ofEntries
      (headers.map fun (name, value) => (name, Value.string (Http.headerText value)))))])

def sendFailure (cause : String) : NodeError := .transient ("HTTP request failed: " ++ cause)

/-- How the call unfolds once the method is known to be supported. -/
def exchange (client : HttpClient) (ctx : NodeContext) (method url : String) : Behaviour :=
  match build ctx method url with
  | .error cause => .fail (sendFailure cause)
  | .ok request =>
    if ctx.cancelled then .fail .cancelled
    else
      match client request with
      | .failed cause => .fail (sendFailure cause)
      | .cut cause => .fail (.transient ("Failed to read response: " ++ cause))
      | .answered status headers body =>
        .info ("Response status: " ++ toString status)
          (if Http.isServerError status then
            .fail (.transient (method ++ " " ++ url ++ " answered " ++ Http.statusText status))
          else
            .answer (.ok (.proceed
              (ctx.context.insert (target ctx) (responseValue status headers body)))))

def execute (client : HttpClient) (ctx : NodeContext) : Behaviour :=
  .ofExcept (address ctx) fun url =>
    let method := method ctx
    .info (method ++ " " ++ url)
      (if methods.contains method then exchange client ctx method url
      else .fail (.configuration ("Unsupported method: " ++ method)))

def executor (client : HttpClient) : Executor where
  nodeType := "http.request"
  metadata := { description := "Make HTTP requests", category := "http" }
  execute := execute client

/-- The request a call sends over a plain connection, if it sends one. -/
def sent? (ctx : NodeContext) : Option HttpRequest :=
  match address ctx with
  | .error _ => none
  | .ok url =>
    if ctx.cancelled || !methods.contains (method ctx) then none
    else (build ctx (method ctx) url).toOption.filter fun request => !request.url.secure

end HttpNode

end WorkflowEngine
