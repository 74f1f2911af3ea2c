import WorkflowEngine.Proofs.Text.Split
import WorkflowEngine.Proofs.Text.Utf8
import WorkflowEngine.Proofs.Uuid
import WorkflowEngine.Service.Answer

/-!
# Bodies of requests that run executions

A request that starts or resumes an execution may carry an input in its body. A body that is read as
what the route takes, with an input that is no object, is refused and changes nothing. A body that
cannot be read is not refused: the request is answered as if it had none, and the execution runs.
-/
namespace WorkflowEngine

namespace Service

/-- Does a route start an execution or go on with one? -/
def Route.Runs : Route → Prop
  | .startExecution _ | .resumeExecution _ => True
  | _ => False

theorem Route.Runs.method {method : String} {segments : List String} {route : Route}
    (hruns : route.Runs) (hroute : Route.find? method segments = some route) : method = "POST" := by
  unfold Route.find? Route.find?.named at hroute
  split at hroute
  case h_3 | h_6 | h_9 | h_10 => rfl
  case h_13 => cases hroute
  all_goals
    try split at hroute
    all_goals
      cases hroute
      try exact hruns.elim

namespace Request

/-- What a request asks for. -/
def route? (request : Request) : Option Route :=
  request.segments?.bind (Route.find? request.method)

/-- The input in the body of a request, if the body can be read as what the route takes. -/
def input (request : Request) : Route → Except BodyError (Option Json)
  | .startExecution _ => (request.decode StartBody.decode).map (·.input)
  | .resumeExecution _ => (request.decode ResumeBody.decode).map (·.input)
  | _ => .ok none

/-- The request without its body. -/
def bare (request : Request) : Request := { request with body := [] }

/-- An empty body is no JSON text. -/
theorem decode_bare {α : Type} (request : Request) (item : Json.Decode α) :
    ∃ cause, request.bare.decode item = .error cause := by
  have hempty : Bytes.text? request.bare.body = some "" := by
    have hnone : Bytes.ofText "" = request.bare.body := Bytes.ofText_ofList []
    rw [← hnone, Bytes.text?_ofText]
  have hread : Json.decodeText item "" = .error (.text .unexpectedEnd) := rfl
  unfold decode
  rw [hempty]
  simp only [hread]
  split
  · exact ⟨_, rfl⟩
  · split <;> exact ⟨_, rfl⟩

variable {α β : Type} {request : Request} {item : Json.Decode α}

theorem decode_of_map_ok {part : α → β} {b : β} (h : (request.decode item).map part = .ok b) :
    ∃ a, request.decode item = .ok a ∧ part a = b := by
  cases hdecode : request.decode item with
  | error cause =>
      rw [hdecode] at h
      cases h
  | ok a =>
      rw [hdecode] at h
      exact ⟨a, rfl, Except.ok.inj h⟩

theorem decode_of_map_error {part : α → β} {cause : BodyError}
    (h : (request.decode item).map part = .error cause) : request.decode item = .error cause := by
  cases hdecode : request.decode item with
  | error found =>
      rw [hdecode] at h
      cases h
      rfl
  | ok a =>
      rw [hdecode] at h
      cases h

variable [Inhabited α]

theorem optionalBody_of_error {cause : BodyError} (h : request.decode item = .error cause) :
    request.optionalBody item = default := by
  rw [optionalBody, h]
  rfl

theorem optionalBody_of_ok {a : α} (h : request.decode item = .ok a) :
    request.optionalBody item = a := by
  rw [optionalBody, h]
  rfl

end Request

theorem parseInput_of_object {json : Json} (h : ∀ entries, json ≠ .object entries) :
    parseInput (some json) = .error (.failure 400 "input must be a JSON object") := by
  cases json with
  | object entries => exact absurd rfl (h entries)
  | _ => rfl

/-- The call that a route makes when no input is given. -/
def call? (service : Service) : Route → Option Call
  | .startExecution id => some (.startNamed service.engine id standardUser [])
  | .resumeExecution written => (Uuid.parse? written).map fun id => .resuming { id }
  | _ => none

variable {service : Service} {request : Request} {frames : List ClientFrame} {route : Route}

/-- A request that runs an execution is answered by its route. -/
theorem answer_of_runs (hroute : request.route? = some route) (hruns : route.Runs) :
    service.answer request frames =
      (.response (service.follow request route).1, (service.follow request route).2) := by
  obtain ⟨segments, -, hfound⟩ := Option.bind_eq_some_iff.mp hroute
  have hmethod : request.method = "POST" := hruns.method hfound
  have hown : request.shared? = none := by
    rw [Request.shared?, hmethod]
    rfl
  unfold Request.route? at hroute
  unfold answer
  rw [hown, hroute]
  cases route with
  | startExecution | resumeExecution => rfl
  | _ => exact hruns.elim

/-- A body whose input is no object is refused, and nothing else is done. -/
theorem follow_of_stray_input {json : Json} (hruns : route.Runs)
    (hinput : request.input route = .ok (some json)) (hstray : ∀ entries, json ≠ .object entries) :
    ∃ response, service.follow request route = (response, service) ∧
      400 ≤ response.status ∧ response.status < 500 := by
  have hrefused := parseInput_of_object hstray
  cases route with
  | startExecution id =>
      obtain ⟨body, hbody, hjson⟩ := Request.decode_of_map_ok hinput
      refine ⟨.failure 400 "input must be a JSON object", ?_, ?_, ?_⟩
      · simp only [follow, startExecution, Request.optionalBody_of_ok hbody, hjson, hrefused]
      all_goals decide
  | resumeExecution written =>
      obtain ⟨body, hbody, hjson⟩ := Request.decode_of_map_ok hinput
      cases hid : parseId written with
      | error response =>
          have hstatus : response.status = 404 := by
            unfold parseId at hid
            split at hid
            · cases hid
            · cases hid
              rfl
          refine ⟨response, ?_, ?_, ?_⟩
          · simp only [follow, hid]
          all_goals omega
      | ok id =>
          refine ⟨.failure 400 "input must be a JSON object", ?_, ?_, ?_⟩
          · simp only [follow, hid, resumeExecution, Request.optionalBody_of_ok hbody, hjson,
              hrefused]
          all_goals decide
  | _ => exact hruns.elim

/-- A body that cannot be read counts as none. -/
theorem follow_of_unreadable {cause : BodyError} (hruns : route.Runs)
    (hinput : request.input route = .error cause) :
    service.follow request route = service.follow request.bare route := by
  cases route with
  | startExecution id =>
      have hbody := Request.decode_of_map_error hinput
      obtain ⟨_, hbare⟩ := request.decode_bare StartBody.decode
      simp only [follow, startExecution, Request.optionalBody_of_error hbody,
        Request.optionalBody_of_error hbare]
  | resumeExecution written =>
      have hbody := Request.decode_of_map_error hinput
      obtain ⟨_, hbare⟩ := request.decode_bare ResumeBody.decode
      simp only [follow, resumeExecution, Request.optionalBody_of_error hbody,
        Request.optionalBody_of_error hbare]
  | _ => exact hruns.elim

/-- Without a body the call is made without input. -/
theorem follow_bare {call : Call} (hcall : service.call? route = some call) :
    service.follow request.bare route = service.perform call := by
  cases route with
  | startExecution id =>
      obtain ⟨_, hbare⟩ := request.decode_bare StartBody.decode
      cases hcall
      simp only [follow, startExecution, Request.optionalBody_of_error hbare]
      rfl
  | resumeExecution written =>
      obtain ⟨_, hbare⟩ := request.decode_bare ResumeBody.decode
      obtain ⟨id, hid, rfl⟩ := Option.map_eq_some_iff.mp hcall
      simp only [follow, parseId, hid, resumeExecution, Request.optionalBody_of_error hbare]
      rfl
  | _ => cases hcall

/-- A request that starts or resumes an execution is refused when its body is read and the input is
neither `null` nor an object; nothing has changed then. A body that cannot be read is no reason to
refuse: the request is answered as if it had no body, and the call is made without input. -/
theorem answer_of_body (hroute : request.route? = some route) (hruns : route.Runs) :
    (∀ json, request.input route = .ok (some json) → (∀ entries, json ≠ .object entries) →
      ∃ response, service.answer request frames = (.response response, service) ∧
        400 ≤ response.status ∧ response.status < 500) ∧
    ∀ cause, request.input route = .error cause →
      service.answer request frames = service.answer request.bare frames ∧
      ∀ call, service.call? route = some call →
        service.answer request frames =
          (.response (service.perform call).1, (service.perform call).2) := by
  have hanswer : service.answer request frames = _ := answer_of_runs hroute hruns
  have hbare : service.answer request.bare frames = _ := answer_of_runs hroute hruns
  constructor
  · intro json hinput hstray
    obtain ⟨response, hfollow, hstatus⟩ :
        ∃ response, service.follow request route = (response, service) ∧ _ :=
      follow_of_stray_input hruns hinput hstray
    refine ⟨response, ?_, hstatus⟩
    rw [hanswer, hfollow]
  · intro cause hinput
    have hsame : service.follow request route = service.follow request.bare route :=
      follow_of_unreadable hruns hinput
    constructor
    · rw [hanswer, hbare, hsame]
    · intro call hcall
      rw [hanswer, hsame, follow_bare hcall]

/-- The parts of the path of a request. -/
theorem Request.segments?_eq (request : Request) :
    request.segments? =
      match (((Percent.undo keptInPath (Bytes.ofText
        (String.ofList (request.place.takeWhile (· ≠ '?'))))).lossyText.toList.splitOn '/').map
          String.ofList) with
      | "" :: segments => some segments
      | _ => none := by
  have hslash : "/" = String.ofList ['/'] := rfl
  rw [← Text.splitOn_eq, ← hslash]
  rfl

end Service

namespace Sample

/-- A definition that only waits. -/
def waiting : Workflow where
  id := "waiting"
  nodes := [⟨"wait", "flow.wait", none, [], none⟩]
  connections := []

/-- A service that knows the definition. -/
def desk : Service where
  place := {}
  engine := {
    registry := Standard.registry HttpClient.offline
    workflows := [(waiting.id, waiting)] }
  host := { store := .memory {}, bus := default }

/-- The service with an execution that waits. -/
def waitingDesk : Service :=
  (desk.perform (.startNamed desk.engine waiting.id Service.standardUser [])).2

/-- A request to go on with the execution, with some body. -/
def continuation (body : String) : Service.Request where
  method := "POST"
  target := "/api/executions/" ++ (Uuid.version4 0).toText ++ "/resume"
  headers := [("content-type", "application/json")]
  body := Bytes.ofText body

/-- A body that ends too early. -/
def truncated : Service.Request := continuation "\x7b\"input\": \x7b\"approved\": "

/-- A body whose input is a text. -/
def verbal : Service.Request := continuation "\x7b\"input\": \"approved\"\x7d"

end Sample

namespace Service

theorem answer_of_body_of_waiting :
    (∃ response, Sample.waitingDesk.answer Sample.verbal [] =
      (.response response, Sample.waitingDesk) ∧
        400 ≤ response.status ∧ response.status < 500) ∧
    Sample.waitingDesk.answer Sample.truncated [] =
      (.response (Sample.waitingDesk.perform (.resuming { id := Uuid.version4 0 })).1,
        (Sample.waitingDesk.perform (.resuming { id := Uuid.version4 0 })).2) := by
  have hverbal : Sample.verbal.route? = some (.resumeExecution (Uuid.version4 0).toText) := by
    rw [Request.route?, Request.segments?_eq]
    decide +kernel
  have htruncated : Sample.truncated.route? = some (.resumeExecution (Uuid.version4 0).toText) := by
    rw [Request.route?, Request.segments?_eq]
    decide +kernel
  have hinput : ((Sample.verbal.input (.resumeExecution (Uuid.version4 0).toText)).toOption.bind
      fun found => found.bind Json.asText?) = some "approved" := by
    decide +kernel
  have hunreadable : (Sample.truncated.input (.resumeExecution (Uuid.version4 0).toText)).isOk =
      false := by
    decide +kernel
  constructor
  · cases hfound : Sample.verbal.input (.resumeExecution (Uuid.version4 0).toText) with
    | error cause =>
        rw [hfound] at hinput
        cases hinput
    | ok found =>
        rw [hfound] at hinput
        cases found with
        | none => cases hinput
        | some json =>
            apply (answer_of_body hverbal trivial).1 json hfound
            rintro entries rfl
            cases hinput
  · cases hfound : Sample.truncated.input (.resumeExecution (Uuid.version4 0).toText) with
    | ok found =>
        rw [hfound] at hunreadable
        cases hunreadable
    | error cause =>
        apply ((answer_of_body htruncated trivial).2 cause hfound).2
        rw [call?, Uuid.parse?_toText]
        rfl

/-- What is known of an execution. -/
def status? (service : Service) (id : ExecutionId) : Option ExecutionStatus :=
  (Engine.getState service.host id).toOption.map (·.header.status)

/-- A body that ends too early goes on with an execution that waits, and what it waits for never
comes. -/
theorem answer_of_truncated :
    (Sample.truncated.input (.resumeExecution (Uuid.version4 0).toText)).isOk = false ∧
    Sample.waitingDesk.status? (Uuid.version4 0) = some .paused ∧
    ∃ response, (Sample.waitingDesk.answer Sample.truncated []).1 = .response response ∧
      response.status = 200 ∧
      (Sample.waitingDesk.answer Sample.truncated []).2.status? (Uuid.version4 0) =
        some .completed := by
  have hroute : Sample.truncated.route? = some (.resumeExecution (Uuid.version4 0).toText) := by
    rw [Request.route?, Request.segments?_eq]
    decide +kernel
  rw [answer_of_runs hroute trivial]
  refine ⟨?_, ?_, _, rfl, ?_, ?_⟩
  all_goals decide +kernel

end Service

end WorkflowEngine
