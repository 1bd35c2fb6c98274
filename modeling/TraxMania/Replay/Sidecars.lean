import TraxMania.Generation.LlmSpec
import Mathlib.Data.List.Infix

/-
  The two sidecars of a replay: what the loaders make of the files, and every exception that they
  raise, with the content that raises it.
-/

namespace TraxMania.Replay

open TraxMania.Generation TraxMania.Generation.Llm Lib.Outcome Lib.Enumerate

/-! ## Python values -/

/-- The exceptions of the replay stage. -/
inductive Raised where
  /-- `TelemetryLoadError`. -/
  | telemetryLoad (detail : String)
  /-- `TelemetryFormatError`. -/
  | telemetryFormat (detail : String)
  /-- `BreadcrumbsLoadError`. -/
  | breadcrumbsLoad (detail : String)
  /-- `BreadcrumbsFormatError`. -/
  | breadcrumbsFormat (detail : String)
  | attributeError
  | unicodeDecodeError
  | osError
  | python (e : PyError)
  /-- A rule raises. -/
  | rule (text : String)
  /-- The database refuses a statement. -/
  | database
deriving DecidableEq

/-- The functions of the standard library that the loaders call. -/
structure SidecarPython extends Python where
  /-- The text of the `JSONDecodeError` that `json.loads` raises. -/
  decodeError : String → String
  /-- `str` of a value that is no text. -/
  str : Json → String
  /-- `repr` of a value. -/
  repr : Json → String
  /-- `str(Path(p))`. -/
  pathText : String → String
  /-- `Path(p).name`. -/
  pathName : String → String

/-- `str(v)`. -/
def textOf (py : SidecarPython) : Json → String
  | .str s => s
  | v => py.str v

/-- `type(v).__name__`. -/
def typeName : Json → String
  | .null => "NoneType"
  | .bool _ => "bool"
  | .int _ => "int"
  | .float _ => "float"
  | .str _ => "str"
  | .arr _ => "list"
  | .obj _ => "dict"

abbrev Entries := List (String × Json)

/-- `payload[key]` of a key that is there. -/
def item (entries : Entries) (key : String) : Json := (entries.lookup key).getD .null

/-- A file at the path of a sidecar. -/
inductive SidecarFile where
  /-- `is_file()` is false. -/
  | missing
  /-- The text cannot be read. -/
  | unreadable
  | notUtf8
  | text (content : String)

/-- `json.loads(path.read_text(encoding="utf-8"))`; `load` is the error that a missing file and a
    `JSONDecodeError` become. -/
def readJson (py : SidecarPython) (load : String → Raised) (kind path : String) :
    SidecarFile → Except Raised Json
  | .missing => .error (load (kind ++ " sidecar missing: " ++ py.pathText path))
  | .unreadable => .error .osError
  | .notUtf8 => .error .unicodeDecodeError
  | .text content =>
    match py.loads content with
    | .ok payload => .ok payload
    | .error .jsonDecodeError =>
      .error (load (py.pathText path ++ " is not valid JSON: " ++ py.decodeError content))
    | .error e => .error (.python e)

/-! ## Telemetry -/

/-- `TELEMETRY_SCHEMA_VERSION`. -/
def telemetrySchemaVersion : Int := 1

structure SampleFrame where
  timeMs : Int
  x : JsonFloat
  y : JsonFloat
  z : JsonFloat
  vx : JsonFloat
  vy : JsonFloat
  vz : JsonFloat

structure ReplayTelemetry where
  schemaVersion : Int
  sourceReplayId : String
  sampleRateHz : Int
  samples : List SampleFrame
  playerLogin : Option String
  finishTimeMs : Option Int
  checkpointSampleIndices : List Int
  restartSampleIndices : List Int
  extra : Entries

/-- `_as_int(value, field_name=…)`. -/
def asInt (fieldName : String) : Json → Except Raised Int
  | .bool _ => .error (.telemetryFormat (fieldName ++ " must be int, not bool"))
  | .int n => .ok n
  | v => .error (.telemetryFormat (fieldName ++ " must be int, got " ++ typeName v))

/-- `float(value)` of an integer. -/
def floatOfInt (n : Int) : Except Raised JsonFloat :=
  if n.natAbs < floatLimit then .ok (.finite n) else .error (.python .overflowError)

/-- `_as_float(value, field_name=…)`. -/
def asFloat (fieldName : String) : Json → Except Raised JsonFloat
  | .bool _ => .error (.telemetryFormat (fieldName ++ " must be float, not bool"))
  | .int n => floatOfInt n
  | .float x => .ok x
  | v => .error (.telemetryFormat (fieldName ++ " must be numeric, got " ++ typeName v))

/-- `f"sample[\x7bindex\x7d]"`. -/
def sampleName (index : Nat) : String := "sample[" ++ toString index ++ "]"

/-- The first of the keys that a mapping does not have. -/
def firstMissing (keys : List String) (entries : Entries) : Option String :=
  keys.find? fun key => (entries.lookup key).isNone

/-- Every key is there; `e` is the error for one that is not. -/
def requireKeys (keys : List String) (e : String → Raised) (entries : Entries) :
    Except Raised Unit :=
  match firstMissing keys entries with
  | some key => .error (e key)
  | none => .ok ()

/-- `required`. -/
def sampleKeys : List String := ["time_ms", "x", "y", "z", "vx", "vy", "vz"]

/-- One field of `_sample_from_mapping`. -/
def sampleFloat (index : Nat) (raw : Entries) (key : String) : Except Raised JsonFloat :=
  asFloat (sampleName index ++ "." ++ key) (item raw key)

/-- `_sample_from_mapping`, or `_bad` for what is no mapping. -/
def sampleFrom (index : Nat) : Json → Except Raised SampleFrame
  | .obj raw => do
    requireKeys sampleKeys
      (fun key => .telemetryFormat
        (sampleName index ++ " missing required field '" ++ key ++ "'")) raw
    let timeMs ← asInt (sampleName index ++ ".time_ms") (item raw "time_ms")
    let x ← sampleFloat index raw "x"
    let y ← sampleFloat index raw "y"
    let z ← sampleFloat index raw "z"
    let vx ← sampleFloat index raw "vx"
    let vy ← sampleFloat index raw "vy"
    let vz ← sampleFloat index raw "vz"
    return ⟨timeMs, x, y, z, vx, vy, vz⟩
  | _ => .error (.telemetryFormat (sampleName index ++ " must be a mapping"))

/-- `enumerate(payload.get(key, ()))`, every entry through `_as_int`. -/
def indicesFrom (key : String) (entries : Entries) : Except Raised (List Int) :=
  match entries.lookup key with
  | none => .ok []
  | some v => do
    let values ← v.iterate.mapError .python
    collect (fun k => asInt (key ++ "[" ++ toString k ++ "]")) 0 values

/-- `value is not None` and its integer. -/
def optionalInt (key : String) (entries : Entries) : Except Raised (Option Int) :=
  match item entries key with
  | .null => .ok none
  | v => (asInt key v).map some

/-- `extra`, when it is a mapping. -/
def extraFrom (entries : Entries) : Except Raised Entries :=
  match item entries "extra" with
  | .null => .ok []
  | .obj extra => .ok extra
  | _ => .error (.telemetryFormat "extra must be a mapping if present")

/-- The bounds of one list of indices in `__post_init__`. -/
def requireInBounds (key : String) (samples : Nat) (indices : List Int) : Except Raised Unit :=
  match indices.find? fun i => !(decide (0 ≤ i) && decide (i < (samples : Int))) with
  | some i => .error (.telemetryFormat (key ++ " entry " ++ toString i ++
      " out of bounds (have " ++ toString samples ++ " samples)"))
  | none => .ok ()

/-- `__post_init__`. -/
def ReplayTelemetry.checked (t : ReplayTelemetry) : Except Raised ReplayTelemetry := do
  require (t.schemaVersion = telemetrySchemaVersion)
    (.telemetryFormat ("unsupported telemetry schema_version " ++ toString t.schemaVersion ++
      "; this build expects " ++ toString telemetrySchemaVersion))
  require (0 < t.sampleRateHz) (.telemetryFormat "sample_rate_hz must be positive")
  require (t.samples ≠ []) (.telemetryFormat "samples must be non-empty")
  requireInBounds "checkpoint_sample_indices" t.samples.length t.checkpointSampleIndices
  requireInBounds "restart_sample_indices" t.samples.length t.restartSampleIndices
  return t

/-- `samples`, when it is a list. -/
def samplesFrom (entries : Entries) : Except Raised (List SampleFrame) :=
  match item entries "samples" with
  | .arr raw => collect sampleFrom 0 raw
  | _ => .error (.telemetryFormat "samples must be a list")

/-- The fields that a telemetry payload must have. -/
def telemetryKeys : List String :=
  ["schema_version", "source_replay_id", "sample_rate_hz", "samples"]

/-- `str(value) if value is not None else None`. -/
def optionalText (py : SidecarPython) : Json → Option String
  | .null => none
  | v => some (textOf py v)

/-- `from_dict` of the telemetry. -/
def telemetryFromDict (py : SidecarPython) (entries : Entries) : Except Raised ReplayTelemetry := do
  requireKeys telemetryKeys
    (fun key => .telemetryFormat ("missing required top-level field '" ++ key ++ "'")) entries
  let samples ← samplesFrom entries
  let finishTimeMs ← optionalInt "finish_time_ms" entries
  let checkpoints ← indicesFrom "checkpoint_sample_indices" entries
  let restarts ← indicesFrom "restart_sample_indices" entries
  let extra ← extraFrom entries
  let schemaVersion ← asInt "schema_version" (item entries "schema_version")
  let sampleRateHz ← asInt "sample_rate_hz" (item entries "sample_rate_hz")
  ReplayTelemetry.checked
    ⟨schemaVersion, textOf py (item entries "source_replay_id"), sampleRateHz, samples,
      optionalText py (item entries "player_login"), finishTimeMs, checkpoints, restarts, extra⟩

/-- What a file loader needs of a replay. -/
structure ReplayRow where
  id : Nat
  mapId : Nat
  rawArtifactPath : Option String
  rawArtifactHash : Option String
  finishTimeMs : Option Int
deriving DecidableEq

/-- `raw_artifact_path`, when there is one. -/
def ReplayRow.artifact (row : ReplayRow) : Option String :=
  row.rawArtifactPath.filter fun path => path ≠ ""

/-- `FileTelemetryLoader.load`. -/
def loadTelemetry (py : SidecarPython) (files : String → SidecarFile) (row : ReplayRow) :
    Except Raised ReplayTelemetry :=
  match row.artifact with
  | none => .error (.telemetryLoad ("replay id=" ++ toString row.id ++ " has no raw_artifact_path"))
  | some raw => do
    let path := raw ++ ".telemetry.json"
    let payload ← readJson py .telemetryLoad "telemetry" path (files path)
    match payload with
    | .obj entries =>
      if truthy (item entries "samples") then telemetryFromDict py entries
      else .error (.telemetryLoad ("sidecar " ++ py.pathName path ++ " has no position samples " ++
        "(TM2020 entity-record decoding not supported by this wrapper build)"))
    | _ => .error .attributeError

/-! ## Breadcrumbs -/

/-- `BREADCRUMBS_SCHEMA_VERSION`. -/
def breadcrumbsSchemaVersion : Int := 1

structure InputEvent where
  timeMs : Int
  kind : String
  repr : String

structure ReplayBreadcrumbs where
  schemaVersion : Int
  sourceReplayId : String
  inputs : List InputEvent
  inputsCount : Int
  playerLogin : Option String
  finishTimeMs : Option Int
  checkpointTimesMs : List Int

/-- `int(value)`. -/
def intOf (py : SidecarPython) (value : Json) : Except Raised Int :=
  (value.toInt py.toPython).mapError .python

/-- `_as_int(value, field_name=…)` of the breadcrumbs. -/
def crumbInt (py : SidecarPython) (entries : Entries) (fieldName : String) : Except Raised Int :=
  match item entries fieldName with
  | .null => .error (.breadcrumbsFormat (fieldName ++ " is required"))
  | value =>
    match value.toInt py.toPython with
    | .ok n => .ok n
    | .error .overflowError => .error (.python .overflowError)
    | .error .recursionError => .error (.python .recursionError)
    | .error _ => .error (.breadcrumbsFormat
        (fieldName ++ " must be an integer, got " ++ py.repr value))

/-- `int(time_val) if time_val is not None else 0`. -/
def timeFrom (py : SidecarPython) (raw : Entries) : Except Raised Int :=
  match item raw "time_ms" with
  | .null => .ok 0
  | value => intOf py value

/-- One turn of the loop over the inputs. -/
def inputFrom (py : SidecarPython) (i : Nat) : Json → Except Raised InputEvent
  | .obj raw => do
    let timeMs ← timeFrom py raw
    return ⟨timeMs, textOf py (field raw "kind" (.str "")), textOf py (field raw "repr" (.str ""))⟩
  | _ => .error (.breadcrumbsFormat ("inputs[" ++ toString i ++ "] is not an object"))

/-- `payload.get(key, [])`, when it is a list. -/
def listFrom (entries : Entries) (key : String) : Except Raised (List Json) :=
  match field entries key (.arr []) with
  | .arr values => .ok values
  | _ => .error (.breadcrumbsFormat (key ++ " must be a list"))

/-- `int(finish_raw) if finish_raw is not None else None`. -/
def finishFrom (py : SidecarPython) (entries : Entries) : Except Raised (Option Int) :=
  match item entries "finish_time_ms" with
  | .null => .ok none
  | value => (intOf py value).map some

/-- `__post_init__`. -/
def ReplayBreadcrumbs.checked (b : ReplayBreadcrumbs) : Except Raised ReplayBreadcrumbs := do
  require (b.schemaVersion = breadcrumbsSchemaVersion)
    (.breadcrumbsFormat ("unsupported breadcrumbs schema_version " ++ toString b.schemaVersion ++
      "; this build expects " ++ toString breadcrumbsSchemaVersion))
  require (0 ≤ b.inputsCount)
    (.breadcrumbsFormat ("inputs_count must be >= 0, got " ++ toString b.inputsCount))
  return b

/-- The fields that a breadcrumbs payload must have. -/
def breadcrumbsKeys : List String := ["schema_version", "source_replay_id", "inputs_count"]

/-- `from_dict` of the breadcrumbs, for a mapping. -/
def breadcrumbsFromEntries (py : SidecarPython) (entries : Entries) :
    Except Raised ReplayBreadcrumbs := do
  requireKeys breadcrumbsKeys
    (fun key => .breadcrumbsFormat ("breadcrumbs payload missing '" ++ key ++ "'")) entries
  let rawInputs ← listFrom entries "inputs"
  let inputs ← collect (inputFrom py) 0 rawInputs
  let checkpointList ← listFrom entries "checkpoint_times_ms"
  let checkpoints ← collect (fun _ => intOf py) 0 checkpointList
  let schemaVersion ← crumbInt py entries "schema_version"
  let finishTimeMs ← finishFrom py entries
  let inputsCount ← crumbInt py entries "inputs_count"
  let login := item entries "player_login"
  ReplayBreadcrumbs.checked
    ⟨schemaVersion, textOf py (item entries "source_replay_id"), inputs, inputsCount,
      if truthy login then some (textOf py login) else none, finishTimeMs, checkpoints⟩

/-- `key in payload` of a payload that is no mapping: a list has elements, a text has parts. -/
def hasKey (key : String) : Json → Except Raised Bool
  | .arr items => .ok (items.any fun v => match v with | .str s => s = key | _ => false)
  | .str s => .ok (decide (key.toList <:+: s.toList))
  | _ => .error (.python .typeError)

/-- `from_dict` of the breadcrumbs, for what is no mapping and so has no `get`. -/
def breadcrumbsFromOther (payload : Json) : List String → Except Raised ReplayBreadcrumbs
  | [] => .error .attributeError
  | key :: keys => do
    let present ← hasKey key payload
    require present (.breadcrumbsFormat ("breadcrumbs payload missing '" ++ key ++ "'"))
    breadcrumbsFromOther payload keys

/-- `from_dict` of the breadcrumbs. -/
def breadcrumbsFromDict (py : SidecarPython) : Json → Except Raised ReplayBreadcrumbs
  | .obj entries => breadcrumbsFromEntries py entries
  | payload => breadcrumbsFromOther payload breadcrumbsKeys

/-- `FileBreadcrumbLoader.load_by_path`. -/
def loadBreadcrumbs (py : SidecarPython) (files : String → SidecarFile) (raw : String) :
    Except Raised ReplayBreadcrumbs := do
  let path := raw ++ ".breadcrumbs.json"
  let payload ← readJson py .breadcrumbsLoad "breadcrumbs" path (files path)
  match breadcrumbsFromDict py payload with
  | .ok b => .ok b
  | .error (.breadcrumbsFormat detail) =>
    .error (.breadcrumbsLoad (py.pathText path ++ " failed format validation: " ++ detail))
  | .error e => .error e

end TraxMania.Replay
