import TraxMania.RemoteTest.StoreCalls
import TraxMania.Lib.PyText

/-
  The endpoints of the remote-test server that change jobs.
-/

namespace TraxMania.RemoteTest

open TraxMania.Generation TraxMania.Generation.Llm

/-- The functions of the standard library that the server calls. -/
structure ServerPython extends StorePython where
  /-- `int` of a text; `none` is a `ValueError`. -/
  intOfText : String → Option Int
  /-- `str` of an exception. -/
  errorText : PyError → String

/-- The arguments of `create_app`. -/
structure ServerConfig where
  artifactsRoot : String
  authToken : Option String
  allowInsecure : Bool

/-- The form of `POST /jobs`. -/
structure JobForm where
  artifact : Option (List UInt8)
  runId : Option String
  metadata : Option String
  timeoutSeconds : Option String

/-- A request that may change jobs, with the times that are read and what the database makes of the
    calls. -/
inductive Endpoint where
  /-- `POST /jobs`; `existing` is the file at a path before it. -/
  | enqueueJob (db : Database) (now : Int) (existing : String → Option (List UInt8)) (form : JobForm)
  /-- `GET /jobs/next`, with a sweep and then a claim. -/
  | claimNextJob (sweepDb claimDb : Database) (sweepNow claimNow : Int) (agentId : String)
  /-- `POST /jobs/{id}/status`; `body` is `None` when it is no JSON. -/
  | postStatus (db : Database) (now : Int) (jobId : Int) (body : Json)

/-- A request, with its `Authorization` header. -/
structure Request where
  authorization : String
  endpoint : Endpoint

inductive Response where
  /-- `{"error": …}`. -/
  | error (code : Nat) (text : String)
  /-- An exception leaves the endpoint: 500. -/
  | crashed
  /-- 204. -/
  | noContent
  /-- `job.to_dict()`. -/
  | job (code : Nat) (job : Job)
  /-- `job.to_agent_dict(artifact_url)`. -/
  | agentJob (job : Job)

/-- `text.strip()`. -/
def stripText (text : String) : String :=
  String.ofList (Lib.Words.strip Lib.PyText.isSpace text.toList)

/-- `_authorised()`. -/
def authorised (cfg : ServerConfig) (authorization : String) : Bool :=
  cfg.allowInsecure ||
    ("Bearer ".toList.isPrefixOf authorization.toList &&
      (cfg.authToken.any fun token => token ≠ "" &&
        stripText (String.ofList (authorization.toList.drop 7)) = token))

section

variable (py : ServerPython)

/-- The metadata of the form. -/
def formMetadata (text : String) : Except Response Json :=
  match py.loads text with
  | .ok (.obj entries) => .ok (.obj entries)
  | .ok _ => .error (.error 400 "bad metadata: metadata must be a JSON object")
  | .error .recursionError => .error .crashed
  | .error .overflowError => .error .crashed
  | .error e => .error (.error 400 ("bad metadata: " ++ py.errorText e))

/-- The fields of the form, or the response that refuses it. -/
def jobForm (form : JobForm) : Except Response (List UInt8 × String × Json × Int) :=
  match form.artifact with
  | none => .error (.error 400 "artifact file part required")
  | some data =>
    let runId := stripText (form.runId.getD "")
    if runId = "" then .error (.error 400 "run_id required")
    else
      match formMetadata py (form.metadata.getD "{}") with
      | .error response => .error response
      | .ok metadata =>
        match py.intOfText (form.timeoutSeconds.getD "300") with
        | none => .error (.error 400 "timeout_seconds must be int")
        | some timeoutSeconds => .ok (data, runId, metadata, timeoutSeconds)

/-- The response to an exception of the store; a `JobStoreError` has the code. -/
def storeErrorResponse (code : Nat) : StoreError → Response
  | .jobStore text => .error code text
  | _ => .crashed

/-- The response with a job that was read. -/
def jobResponse (code : Nat) : Except StoreError Job → Response
  | .ok job => .job code job
  | .error _ => .crashed

/-- `enqueue_job()`. -/
def enqueueJob (cfg : ServerConfig) (db : Database) (now : Int)
    (existing : String → Option (List UInt8)) (form : JobForm) (s : Store) : Response × Store :=
  match jobForm py form with
  | .error response => (response, s)
  | .ok (data, runId, metadata, timeoutSeconds) =>
    let result := s.enqueue py.toStorePython db now existing cfg.artifactsRoot runId (some data)
      metadata timeoutSeconds
    match result.1 with
    | .error e => (storeErrorResponse 400 e, result.2)
    | .ok res => (jobResponse 201 (result.2.getStrict py.toStorePython res.jobId), result.2)

/-- The response with the job of a claim. -/
def claimResponse : Except StoreError (Option Job) → Response
  | .ok none => .noContent
  | .ok (some job) => .agentJob job
  | .error _ => .crashed

/-- `claim_next_job()`. -/
def claimNextJob (sweepDb claimDb : Database) (sweepNow claimNow : Int) (agentId : String)
    (s : Store) : Response × Store :=
  if stripText agentId = "" then (.error 400 "agent_id query param required", s)
  else
    let swept := s.sweepTimeouts sweepDb sweepNow
    match swept.1 with
    | .error _ => (.crashed, swept.2)
    | .ok _ =>
      let claim := swept.2.claimNext py.toStorePython claimDb claimNow (stripText agentId)
      (claimResponse claim.1, claim.2)

/-- `JobStatus(value)`; `none` is a `ValueError`. -/
def JobStatus.ofValue : Json → Option JobStatus
  | .str value =>
    [JobStatus.queued, .claimed, .running, .complete, .failed, .timedOut, .cancelled].find?
      fun status => status.value = value
  | _ => none

/-- The arguments of `transition` that a body carries. -/
structure StatusPost where
  toStatus : JobStatus
  agentId : Json
  detail : Json
  report : Json

/-- The body of a status post, or the response that refuses it. -/
def statusPost (body : Json) : Except Response StatusPost :=
  match (if truthy body then body else .obj []) with
  | .obj entries =>
    let status := field entries "status" .null
    if truthy status then
      match JobStatus.ofValue status with
      | none => .error (.error 400 ("unknown status: " ++ py.repr status))
      | some toStatus =>
        let post : StatusPost := ⟨toStatus, field entries "agent_id" .null,
          field entries "detail" .null, field entries "report" .null⟩
        match post.report with
        | .null => .ok post
        | .obj _ => .ok post
        | _ => .error (.error 400 "report must be an object")
    else .error (.error 400 "status required")
  | _ => .error .crashed

/-- `post_status(job_id)`. -/
def postStatus (db : Database) (now : Int) (jobId : Int) (body : Json) (s : Store) :
    Response × Store :=
  match statusPost py body with
  | .error response => (response, s)
  | .ok post =>
    let result := s.transition py.toStorePython db now jobId post.toStatus post.agentId post.detail
      post.report
    match result.1 with
    | .ok job => (.job 200 job, result.2)
    | .error e => (storeErrorResponse 409 e, result.2)

/-- What the server does with a request. -/
def serve (cfg : ServerConfig) (s : Store) (request : Request) : Response × Store :=
  if authorised cfg request.authorization then
    match request.endpoint with
    | .enqueueJob db now existing form => enqueueJob py cfg db now existing form s
    | .claimNextJob sweepDb claimDb sweepNow claimNow agentId =>
      claimNextJob py sweepDb claimDb sweepNow claimNow agentId s
    | .postStatus db now jobId body => postStatus py db now jobId body s
  else (.error 401 "unauthorised", s)

end

end TraxMania.RemoteTest
