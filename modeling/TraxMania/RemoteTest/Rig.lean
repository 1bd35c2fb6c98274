import TraxMania.RemoteTest.DeadAgent

/-
  The agent's side of the file drop: the telemetry report that it reads in an `out.json`, and what it
  sends on to the server.
-/

namespace TraxMania.RemoteTest

open TraxMania.Generation TraxMania.Generation.Llm TraxMania.Grid

/-- `PROTOCOL_VERSION`. -/
def protocolVersion : String := "ai_rig_v1"

/-- A file `<job_id>.out.json`. -/
inductive OutFile where
  /-- The file cannot be read. -/
  | unreadable
  | notUtf8
  | text (content : String)

/-- The functions of the standard library that the agent calls. -/
structure AgentPython extends Python where
  /-- `str` of a value that is no text. -/
  str : Json → String
  /-- `repr` of a value. -/
  repr : Json → String
  /-- `str` of the exception when the file cannot be read or is no JSON. -/
  readError : OutFile → String

/-- The exceptions of `_parse_report`. -/
inductive PluginError where
  /-- `PluginIOError`. -/
  | pluginIo (text : String)
  /-- Any other exception. -/
  | other

/-- `TelemetryReport`, without the fields that no later step reads. -/
structure TelemetryReport where
  jobId : Int
  runId : String
  loadSuccess : Bool
  loadError : Option String
  spawnOk : Bool
  finished : Bool
  checkpointTimesMs : List Int
  drivenCells : List Cell
  exitReason : String
  notes : Option String
  pluginVersion : Option String
  validationStatus : Option String
  authorTimeMs : Option Int
deriving DecidableEq

section

variable (py : AgentPython)

/-- An exception of the standard library leaves `_parse_report` as it is. -/
def escaping {α : Type} : Except PyError α → Except PluginError α
  | .ok a => .ok a
  | .error _ => .error .other

/-- The object in the file. -/
def readBody (file : OutFile) : Except PluginError (List (String × Json)) :=
  match file with
  | .unreadable => .error (.pluginIo ("read/decode failed: " ++ py.readError file))
  | .notUtf8 => .error .other
  | .text content =>
    match py.loads content with
    | .ok (.obj entries) => .ok entries
    | .ok _ => .error (.pluginIo "root must be a JSON object")
    | .error .jsonDecodeError => .error (.pluginIo ("read/decode failed: " ++ py.readError file))
    | .error _ => .error .other

/-- `str(value)`. -/
def strOf : Json → String
  | .str text => text
  | value => py.str value

/-- `str(body[key]) if body.get(key) else None`. -/
def textField (entries : List (String × Json)) (key : String) : Option String :=
  if truthy (field entries key .null) then some (strOf py (field entries key .null)) else none

/-- The numbers among the items of `body.get("checkpoint_times_ms") or []`. -/
def checkpointTimes (value : Json) : Except PyError (List Int) := do
  let items ← if truthy value then value.iterate else .ok []
  (items.filter fun item =>
    match item with
    | .int _ => true
    | .float _ => true
    | .bool _ => true
    | _ => false).mapM (Json.toInt py.toPython)

/-- `int(raw) if isinstance(raw, (int, float)) and raw >= 0 else None`. -/
def authorTime : Json → Except PyError (Option Int)
  | .bool b => .ok (some (if b then 1 else 0))
  | .int n => .ok (if 0 ≤ n then some n else none)
  | .float (.finite x) => .ok (if 0 ≤ x then some (truncate x) else none)
  | .float (.infinite false) => .error .overflowError
  | _ => .ok none

/-- `_parse_report(path)`. -/
def parseReport (file : OutFile) : Except PluginError TelemetryReport := do
  let entries ← readBody py file
  match field entries "protocol" .null, entries.lookup "job_id" with
  | .str protocol, some jobId =>
    if protocol = protocolVersion then
      let cells ← escaping <|
        match field entries "driven_cells" .null with
        | .arr items => entryCells py.toPython items
        | _ => .ok []
      let authorTimeMs ← escaping (authorTime (field entries "author_time_ms" .null))
      let jobId ← escaping (jobId.toInt py.toPython)
      let times ← escaping (checkpointTimes py (field entries "checkpoint_times_ms" .null))
      return {
        jobId := jobId
        runId := (textField py entries "run_id").getD ""
        loadSuccess := truthy (field entries "load_success" .null)
        loadError := textField py entries "load_error"
        spawnOk := truthy (field entries "spawn_ok" .null)
        finished := truthy (field entries "finished" .null)
        checkpointTimesMs := times
        drivenCells := cells
        exitReason := (textField py entries "exit_reason").getD "other"
        notes := textField py entries "notes"
        pluginVersion := textField py entries "plugin_version"
        validationStatus := textField py entries "validation_status"
        authorTimeMs := authorTimeMs }
    else
      .error (.pluginIo ("protocol mismatch: expected 'ai_rig_v1', got " ++ py.repr (.str protocol)))
  | .str protocol, none =>
    if protocol = protocolVersion then .error (.pluginIo "job_id required")
    else
      .error (.pluginIo ("protocol mismatch: expected 'ai_rig_v1', got " ++ py.repr (.str protocol)))
  | protocol, _ =>
    .error (.pluginIo ("protocol mismatch: expected 'ai_rig_v1', got " ++ py.repr protocol))

/-- A text, or `None`. -/
def jsonText : Option String → Json
  | none => .null
  | some text => .str text

/-- A cell as a list. -/
def jsonCell (c : Cell) : Json := .arr [.int c.x, .int c.y, .int c.z]

/-- `to_report_dict()`. -/
def TelemetryReport.toReportDict (report : TelemetryReport) : List (String × Json) :=
  [("load_success", .bool report.loadSuccess),
    ("load_error", jsonText report.loadError),
    ("spawn_ok", .bool report.spawnOk),
    ("finished", .bool report.finished),
    ("checkpoint_times_ms", .arr (report.checkpointTimesMs.map .int)),
    ("driven_cells_count", .int report.drivenCells.length),
    ("driven_cells_head", .arr ((report.drivenCells.take 20).map jsonCell)),
    ("exit_reason", .str report.exitReason),
    ("notes", jsonText report.notes),
    ("plugin_version", jsonText report.pluginVersion),
    ("validation_status", jsonText report.validationStatus),
    ("author_time_ms", match report.authorTimeMs with
      | none => .null
      | some n => .int n)]

/-- `ok` or `fail`. -/
def okOrFail (b : Bool) : String := if b then "ok" else "fail"

/-- `_summarise_report(report)`. -/
def summariseReport (report : TelemetryReport) : String :=
  let validation := report.validationStatus.toList.map ("validation=" ++ ·)
  let author := report.authorTimeMs.toList.map fun n => "author_time_ms=" ++ toString n
  let loadError := report.loadError.toList.map fun text => "load_error=" ++ py.repr (.str text)
  " ".intercalate
    (["load=" ++ okOrFail report.loadSuccess, "spawn=" ++ okOrFail report.spawnOk,
        "finished=" ++ (if report.finished then "True" else "False")]
      ++ validation ++ author
      ++ ["cps=" ++ toString report.checkpointTimesMs.length,
        "cells=" ++ toString report.drivenCells.length, "exit=" ++ report.exitReason]
      ++ loadError)

end

/-- Functions for a run: every text is the report of job 1. -/
def plainAgentPython : AgentPython where
  loads _ := .ok (.obj [("protocol", .str "ai_rig_v1"), ("job_id", .int 1)])
  intOfText _ := none
  digest _ := 0
  str _ := ""
  repr _ := ""
  readError _ := ""

end TraxMania.RemoteTest

/-
  The rig: the server, the directory of the file drop, and the agent between them, one step after
  the other. The plugin may write an `out.json` at any time, anybody may send a request to the
  server at any time, and every call of the agent may end in any way.
-/

namespace TraxMania.RemoteTest

open TraxMania.Generation

/-- `ClaimedJob`. -/
structure ClaimedJob where
  id : Int
  runId : String
  artifactUrl : String
  artifactSize : Int
  artifactSha256 : String
  timeoutSeconds : Int
  metadata : List (Json × Json)

/-- What the agent knows of itself: its id, its `Authorization` header, and the whole seconds that
    it waits for a job with the given time-out. -/
structure RigConfig where
  agentId : String
  authorization : String
  waits : Int → Int

/-- Where the agent is in its loop, and in `_handle_job`. -/
inductive Phase where
  | idle
  /-- `clear_stale` comes next. -/
  | clearing (job : ClaimedJob)
  /-- The download and its checks come next. -/
  | staging (job : ClaimedJob)
  /-- The post of `running` comes next. -/
  | starting (job : ClaimedJob)
  /-- `drop_trigger` comes next. -/
  | dropping (job : ClaimedJob)
  /-- `wait_for_report` polls for the file. -/
  | waiting (job : ClaimedJob) (deadline : Int)
  /-- `ack` comes next. -/
  | acking (job : ClaimedJob) (report : TelemetryReport)
  /-- `_ship_report` comes next. -/
  | shipping (job : ClaimedJob) (report : TelemetryReport)
  /-- `_report_fail` comes next. -/
  | failing (job : ClaimedJob) (status detail : String)

/-- What the agent gets of a post. -/
inductive Seen where
  /-- 200 or 409, with a body. -/
  | answer
  /-- `RemoteTestHTTPError`. -/
  | httpError
  /-- Any other exception. -/
  | raised
deriving DecidableEq

/-- A post: when and how the server acts on it, if it does, and what the agent gets. -/
structure Exchange where
  served : Option (Database × Int)
  seen : Seen

/-- The server, the files `<job_id>.out.json`, and the agent. -/
structure Rig where
  store : Store
  out : Int → Option OutFile
  phase : Phase

/-- One step of the rig. -/
inductive RigEvent where
  /-- Any other request at the server. -/
  | other (request : Request)
  /-- The plugin writes a file. -/
  | plugin (jobId : Int) (file : OutFile)
  /-- The agent asks for work; `served` are the times and the luck of the sweep and the claim, `job`
      is what the answer says. -/
  | claim (served : Option (Database × Database × Int × Int)) (job : Option ClaimedJob)
  /-- The agent clears the files of the job, as far as it can. -/
  | clear (removed : Bool)
  /-- The agent stages the artifact, or has to say why not. -/
  | stage (failure : Option String)
  | start (x : Exchange)
  | drop (now : Int)
  /-- The agent looks for the file; `removed` and `later` are about a file that is malformed. -/
  | poll (now : Int) (removed : Bool) (later : Int)
  | ack (removed : Bool)
  | ship (x : Exchange)
  | fail (x : Exchange)
  /-- An exception leaves `_handle_job`. -/
  | raised

section

variable (spy : ServerPython) (scfg : ServerConfig) (py : AgentPython) (cfg : RigConfig)

/-- The body of a status post. -/
def statusBody (status detail : String) (report : Option (List (String × Json))) : Json :=
  .obj ([("status", .str status), ("agent_id", .str cfg.agentId), ("detail", .str detail)]
    ++ report.toList.map fun entries => ("report", .obj entries))

/-- What a status post does to the store. -/
def post (x : Exchange) (jobId : Int) (body : Json) (store : Store) : Store :=
  match x.served with
  | none => store
  | some (db, now) => next spy scfg store ⟨cfg.authorization, .postStatus db now jobId body⟩

/-- The file of the job is gone. -/
def unlink (removed : Bool) (jobId : Int) (out : Int → Option OutFile) : Int → Option OutFile :=
  if removed then Function.update out jobId none else out

namespace Rig

/-- The agent is at rest, and nothing is there. -/
def start : Rig := ⟨.empty, fun _ => none, .idle⟩

/-- The detail of a job whose report has not come. -/
def noReport (deadline later : Int) : String :=
  "plugin did not respond within " ++ toString (deadline - later) ++ "s"

/-- One turn of `wait_for_report`. -/
def pollFile (now : Int) (removed : Bool) (later : Int) (job : ClaimedJob) (deadline : Int)
    (s : Rig) : Rig :=
  if now < deadline then
    match s.out job.id with
    | none => s
    | some file =>
      match parseReport py file with
      | .ok report => { s with phase := .acking job report }
      | .error (.pluginIo _) =>
        { s with
          out := unlink removed job.id s.out
          phase := .failing job "timed_out" (noReport deadline later) }
      | .error .other => { s with phase := .idle }
  else { s with phase := .failing job "timed_out" (noReport deadline later) }

/-- A step of the rig; what does not fit the phase of the agent does nothing. -/
def step (s : Rig) (event : RigEvent) : Rig :=
  match s.phase, event with
  | _, .other request => { s with store := next spy scfg s.store request }
  | _, .plugin jobId file => { s with out := Function.update s.out jobId (some file) }
  | .idle, .claim served job =>
    { s with
      store := match served with
        | none => s.store
        | some (sweepDb, claimDb, sweepNow, claimNow) =>
          next spy scfg s.store
            ⟨cfg.authorization, .claimNextJob sweepDb claimDb sweepNow claimNow cfg.agentId⟩
      phase := match job with
        | none => .idle
        | some job => .clearing job }
  | .clearing job, .clear removed =>
    { s with out := unlink removed job.id s.out, phase := .staging job }
  | .staging job, .stage failure =>
    { s with
      phase := match failure with
        | none => .starting job
        | some detail => .failing job "failed" detail }
  | .starting job, .start x =>
    { s with
      store := post spy scfg cfg x job.id
        (statusBody cfg "running" "artifact staged; plugin trigger dropped" none) s.store
      phase := if x.seen = .raised then .idle else .dropping job }
  | .dropping job, .drop now =>
    { s with phase := .waiting job (now + cfg.waits job.timeoutSeconds) }
  | .waiting job deadline, .poll now removed later => s.pollFile py now removed later job deadline
  | .acking job report, .ack removed =>
    { s with out := unlink removed job.id s.out, phase := .shipping job report }
  | .shipping job report, .ship x =>
    { s with
      store := post spy scfg cfg x job.id
        (statusBody cfg "complete" (summariseReport py report) (some report.toReportDict)) s.store
      phase := .idle }
  | .failing job status detail, .fail x =>
    { s with
      store := post spy scfg cfg x job.id (statusBody cfg status detail none) s.store
      phase := .idle }
  | .shipping .., .raised => s
  | _, .raised => { s with phase := .idle }
  | _, _ => s

end Rig

end

end TraxMania.RemoteTest
