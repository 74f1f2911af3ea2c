import WorkflowEngine.Service.Basic

/-!
# Answering requests

What the service answers to a request, and what becomes of it. A body that is optional counts as absent
when it cannot be read. A question about access from another origin is answered for every path, and
with leave for the usual methods.
-/
namespace WorkflowEngine

namespace Service

/-- The response to a call that failed. -/
def errorResponse (e : EngineError) : Response :=
  let status :=
    match e with
    | .executionNotFound _ | .workflow (.notFound _) => 404
    | .executionBusy _ | .notResumable .. | .store (.conflict ..) => 409
    | .workflow _ => 400
    | _ => 500
  .failure status e.message

/-- The body of a request that starts an execution. -/
structure StartBody where
  input : Option Json := none
  userId : Option String := none
  deriving Inhabited

def StartBody.decode : Json.Decode StartBody := fun json => do
  let parts ← Json.Parts.of 2 json
  return {
    input := ← parts.withDefault 0 ["input", "inputs"] none (Json.Decode.nullable .ok)
    userId := ← parts.optional 1 "userId" Json.Decode.string }

/-- The body of a request that resumes an execution. -/
structure ResumeBody where
  input : Option Json := none
  deriving Inhabited

def ResumeBody.decode : Json.Decode ResumeBody := fun json => do
  let parts ← Json.Parts.of 1 json
  return { input := ← parts.optional 0 "input" .ok }

/-- The value in an optional body; a body that cannot be read counts as absent. -/
def Request.optionalBody {α : Type} [Inhabited α] (request : Request) (item : Json.Decode α) : α :=
  ((request.decode item).toOption).getD default

/-- The input of an execution: nothing, or an object. -/
def parseInput : Option Json → Except Response (Option Context)
  | none => .ok none
  | some json =>
    match Context.ofJson? json with
    | some context => .ok (some context)
    | none => .error (.failure 400 "input must be a JSON object")

/-- The id of an execution in a path. -/
def parseId (written : WrittenId) : Except Response ExecutionId :=
  match Uuid.parse? written with
  | some id => .ok id
  | none => .error ⟨404, .text "UUID parsing failed"⟩

/-- The workflow that a query asks for. -/
def queriedWorkflow (request : Request) : Except Response (Option WorkflowId) :=
  match request.query.filter (·.1 == "workflowId") with
  | [] => .ok none
  | [(_, id)] => .ok (some id)
  | _ => .error ⟨400, .text "Query deserialize error: duplicate field"⟩

def health : Json := .object [
  ("status", .string "healthy"), ("version", .string "0.1.0"), ("service", .string "flowengine")]

/-- A definition in a listing. -/
def summary (w : Workflow) : Json := .object [
  ("id", .string w.id),
  ("name", .string w.name),
  ("description", .optional .string w.description),
  ("nodes", .nat w.nodes.length),
  ("connections", .nat w.connections.length)]

/-- A node type in a listing. -/
def nodeSummary (executor : Executor) : Json := .object [
  ("type", .string executor.nodeType),
  ("description", .string executor.metadata.description),
  ("category", .string executor.metadata.category),
  ("outputs", .strings (executor.metadata.outputs.map (·.name)))]

def workflowMissing (id : WorkflowId) : Response :=
  .failure 404 ("Workflow " ++ id ++ " not found")

/-- Register the definition in the body. -/
def createWorkflow (service : Service) (request : Request) : Response × Service :=
  let (fallback, host) := service.host.drawId
  match request.decode (Workflow.decode fallback.toText) with
  | .error e => (e.response, service)
  | .ok workflow =>
    match service.engine.register workflow with
    | .error e => (errorResponse e, service)
    | .ok engine =>
      (⟨201, .json (.object [
          ("id", .string workflow.id), ("message", .string "Workflow created successfully")])⟩,
        { service with engine, host })

def deleteWorkflow (service : Service) (id : WorkflowId) : Response × Service :=
  match service.engine.workflow? id with
  | none => (workflowMissing id, service)
  | some _ =>
    (.ok (.object [("message", .string "Workflow deleted successfully")]),
      { service with engine := service.engine.remove id })

/-- Perform a call to its end. -/
def perform (service : Service) (call : Call) : Response × Service :=
  let (outcome, engine, host) := call.perform service.engine service.host
  let response :=
    match outcome with
    | .ok result => .ok result.toJson
    | .error e => errorResponse e
  (response, { service with engine, host })

/-- Who runs an execution when the request does not say. -/
def standardUser : String := "anonymous"

def startExecution (service : Service) (id : WorkflowId) (request : Request) :
    Response × Service :=
  let body := request.optionalBody StartBody.decode
  match parseInput body.input with
  | .error response => (response, service)
  | .ok input =>
    service.perform (.startNamed service.engine id (body.userId.getD standardUser) (input.getD []))

def resumeExecution (service : Service) (id : ExecutionId) (request : Request) :
    Response × Service :=
  let body := request.optionalBody ResumeBody.decode
  match parseInput body.input with
  | .error response => (response, service)
  | .ok input => service.perform (.resuming { id, input })

def listExecutions (service : Service) (request : Request) : Except Response Response := do
  let workflowId ← queriedWorkflow request
  let headers ← (Engine.listExecutions service.host workflowId).mapError errorResponse
  return .ok (.array (headers.map ExecutionHeader.toJson))

def getExecution (service : Service) (written : WrittenId) : Except Response Response := do
  let id ← parseId written
  let record ← (Engine.getState service.host id).mapError errorResponse
  return .ok record.toJson

/-- The one of two responses that is to be given. -/
def settle (service : Service) : Except Response Response → Response × Service
  | .ok response => (response, service)
  | .error response => (response, service)

/-- What a route answers; events are answered by an upgrade. -/
def follow (service : Service) (request : Request) : Route → Response × Service
  | .health => (.ok health, service)
  | .listWorkflows => (.ok (.array (service.engine.listWorkflows.map summary)), service)
  | .createWorkflow => service.createWorkflow request
  | .getWorkflow id =>
    match service.engine.workflow? id with
    | some workflow => (.ok workflow.toJson, service)
    | none => (workflowMissing id, service)
  | .deleteWorkflow id => service.deleteWorkflow id
  | .startExecution id => service.startExecution id request
  | .listExecutions => service.settle (service.listExecutions request)
  | .getExecution written => service.settle (service.getExecution written)
  | .resumeExecution written =>
    match parseId written with
    | .error response => (response, service)
    | .ok id => service.resumeExecution id request
  | .cancelExecution written =>
    match parseId written with
    | .error response => (response, service)
    | .ok id =>
      (.ok (.object [("cancelled", .bool (service.engine.isActive id))]),
        { service with engine := service.engine.cancel id })
  | .events => (.empty 400, service)
  | .listNodes =>
    (.ok (.array (service.engine.registry.executors.map fun entry => nodeSummary entry.2)), service)

/-- Does a header name something, in either case? -/
def Request.mentions (request : Request) (header word : String) : Bool :=
  (request.asciiHeader? header).any fun value =>
    ((String.ofList (value.toList.map Char.toLower)).splitOn word).length ≠ 1

/-- Versions of the socket protocol that are spoken. -/
def socketVersions : List String := ["13", "8", "7"]

/-- Why a connection is not upgraded. -/
def Request.refusal? (request : Request) : Option Response :=
  if !request.mentions "upgrade" "websocket" || !request.mentions "connection" "upgrade" then
    some (.empty 400)
  else
    match request.header? "sec-websocket-version" with
    | none => some (.empty 400)
    | some version =>
      if !socketVersions.contains version then some (.empty 426)
      else if (request.header? "sec-websocket-key").isNone then some (.empty 400)
      else none

/-- Methods that another origin may use. -/
def sharedMethods : List String :=
  ["GET", "HEAD", "POST", "PUT", "DELETE", "CONNECT", "OPTIONS", "TRACE", "PATCH"]

/-- The answer to a question about access from another origin. -/
def Request.shared? (request : Request) : Option Response :=
  if request.method ≠ "OPTIONS" then none
  else
    match request.asciiHeader? "access-control-request-method" with
    | none => none
    | some method =>
      if sharedMethods.contains method then some (.empty 200)
      else if Http.isNameValid method then some ⟨400, .text "Requested method is not allowed"⟩
      else none

/-- What a client gets: a response, or a socket of some number. -/
inductive Reply where
  | response (response : Response)
  | socket (number : Nat)

/-- Answer a request. Over a new socket the client sends some frames at once. -/
def answer (service : Service) (request : Request) (frames : List ClientFrame) :
    Reply × Service :=
  match request.shared? with
  | some response => (.response response, service)
  | none =>
    match request.segments?.bind (Route.find? request.method) with
    | none => (.response (.empty 404), service)
    | some .events =>
      match request.refusal? with
      | some response => (.response response, service)
      | none =>
        (.socket service.sockets.length,
          { service with sockets := service.sockets ++ [.openOn service.host.bus frames] })
    | some route =>
      let (response, service) := service.follow request route
      (.response response, service)

end Service

end WorkflowEngine
