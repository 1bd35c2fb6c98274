import TraxMania.Lib.PyText
import TraxMania.Parsers.Result
import TraxMania.Replay.CleanPipeline

/-
  `ingestion/openplanet_telemetry.py`: captures of ghosts become rows of `replays`, one for each
  replay id and snapshot. A row has the columns that cleaning reads and writes, and beside them
  those that only a capture fills.
-/

namespace TraxMania.Ingestion

open TraxMania.Generation TraxMania.Generation.Llm TraxMania.Replay TraxMania.Parsers Lib
  Lib.Outcome Lib.PyText Lib.Words

/-! ## The table -/

/-- A row of `replays`. -/
structure CapturedRow where
  clean : CleanRow
  sourceSystem : String
  sourceReplayId : String
  playerDisplayName : Option String
  parseStatus : ParseStatus
  openplanetTelemetryPath : Option String
  openplanetTelemetryHash : Option String
  captureSource : Option String
  createdByVersion : String

/-- `uq_replays_natural`. -/
def CapturedRow.naturalKey (r : CapturedRow) : String × String × String :=
  (r.sourceSystem, r.sourceReplayId, r.clean.ingestionSnapshot)

/-- The table. -/
abbrev CaptureDb := AutoTable fun r : CapturedRow => r.clean.id

/-! ## What a capture says -/

/-- `SOURCE_SYSTEM`. -/
def ghostSystem : String := "openplanet_ghost"
/-- `DEFAULT_CAPTURE_SOURCE`. -/
def defaultCaptureSource : String := "map_author_ghost"

/-- `name[: -len(suffix)]` for the first suffix that the name ends with. -/
def dropSuffix (suffixes : List Text) (name : Text) : Text :=
  match suffixes.find? fun suffix => decide (suffix <:+ name) with
  | some suffix => name.take (name.length - suffix.length)
  | none => name

/-- `c in "0123456789abcdef"`. -/
def isHexDigit (c : Char) : Bool := "0123456789abcdef".toList.contains c

/-- `_artifact_hash_from_map_file` of a text. A letter beyond ASCII is no hexadecimal digit, in
    lower case or not. -/
def artifactHashOfName (mapFile : Text) : Option String :=
  let parts := mapFile.splitOnP fun c => c = '/' || c = '\\'
  let stem := dropSuffix [".Map.Gbx".toList, ".map.gbx".toList] (parts.getLast?.getD [])
  let name := (strip isSpace stem).map Char.toLower
  if name.length = 64 && name.all isHexDigit then some (String.ofList name) else none

/-- `_artifact_hash_from_map_file(map_file)`: a value that is no text has no `replace`. -/
def artifactHashFromMapFile (mapFile : Json) : Except Raised (Option String) :=
  if truthy mapFile then
    match mapFile with
    | .str s => .ok (artifactHashOfName s.toList)
    | _ => .error .attributeError
  else .ok none

/-- A file with valid telemetry; every exception of its reading is caught. -/
def readCapture (py : SidecarPython) : SidecarFile → Option ReplayTelemetry
  | .text content =>
    match py.loads content with
    | .ok (.obj entries) => (telemetryFromDict py entries).toOption
    | _ => none
  | _ => none

/-- `VALUES(…)` of the columns that the statement assigns, and the key. -/
structure CaptureValues where
  sourceReplayId : String
  mapId : Nat
  playerDisplayName : Option String
  finishTimeMs : Option Int
  path : String
  hash : String
  captureSource : Option String
deriving DecidableEq

/-- What the ingestion reads besides the files. -/
structure IngestWorld where
  /-- `_sha256(path)`. -/
  sha256 : SidecarFile → String
  /-- `SELECT id FROM maps WHERE raw_artifact_hash = %s LIMIT 1`. -/
  mapOfHash : String → Option Nat
  /-- What a value of the payload becomes in a text column. -/
  column : Json → Except Raised (Option String)
  /-- The columns take the values. -/
  accepts : CaptureValues → Bool

/-- What becomes of a file. -/
inductive FileOutcome where
  | invalid
  | unmatched
  /-- A dry run writes nothing. -/
  | dry
  | write (values : CaptureValues)

section

variable (i : IngestWorld) (py : SidecarPython) (files : String → SidecarFile)

/-- The values for a file with telemetry of a map. -/
def captureValues (path : String) (t : ReplayTelemetry) (mapId : Nat) :
    Except Raised CaptureValues := do
  let nickname ← i.column (item t.extra "ghost_nickname")
  let source := item t.extra "ghost_source"
  let captureSource ← if truthy source then i.column source else .ok (some defaultCaptureSource)
  return ⟨t.sourceReplayId, mapId, nickname, t.finishTimeMs, path, i.sha256 (files path),
    captureSource⟩

/-- One file: a capture without a map of the corpus is left out. -/
def fileOutcome (dryRun : Bool) (path : String) : Except Raised FileOutcome :=
  match readCapture py (files path) with
  | none => .ok .invalid
  | some t => do
    let hash ← artifactHashFromMapFile (item t.extra "map_file")
    match hash.bind i.mapOfHash with
    | none => return .unmatched
    | some mapId =>
      if dryRun then return .dry
      else
        let values ← captureValues i files path t mapId
        if i.accepts values then return .write values else .error .database

end

/-! ## The upsert -/

/-- The key of the row for some values. -/
def captureKey (snapshot : String) (v : CaptureValues) : String × String × String :=
  (ghostSystem, v.sourceReplayId, snapshot)

/-- The row that the statement inserts. -/
def CaptureValues.row (v : CaptureValues) (snapshot version : String) (id : Nat) : CapturedRow where
  clean := ⟨id, v.mapId, snapshot, none, none, v.finishTimeMs, .unprocessed, none, none⟩
  sourceSystem := ghostSystem
  sourceReplayId := v.sourceReplayId
  playerDisplayName := v.playerDisplayName
  parseStatus := .success
  openplanetTelemetryPath := some v.path
  openplanetTelemetryHash := some v.hash
  captureSource := v.captureSource
  createdByVersion := version

/-- `ON DUPLICATE KEY UPDATE`. -/
def CaptureValues.assign (v : CaptureValues) (r : CapturedRow) : CapturedRow :=
  { r with
    clean := { r.clean with mapId := v.mapId, finishTimeMs := v.finishTimeMs }
    playerDisplayName := v.playerDisplayName
    parseStatus := .success
    openplanetTelemetryPath := some v.path
    openplanetTelemetryHash := some v.hash
    captureSource := v.captureSource }

/-- The assignment leaves the row as it is. -/
def CaptureValues.Same (v : CaptureValues) (r : CapturedRow) : Prop :=
  r.clean.mapId = v.mapId ∧ r.clean.finishTimeMs = v.finishTimeMs ∧
    r.playerDisplayName = v.playerDisplayName ∧ r.parseStatus = .success ∧
    r.openplanetTelemetryPath = some v.path ∧ r.openplanetTelemetryHash = some v.hash ∧
    r.captureSource = v.captureSource

instance sameDecidable (v : CaptureValues) (r : CapturedRow) : Decidable (v.Same r) := by
  unfold CaptureValues.Same; infer_instance

/-- The statement. -/
def upsertCapture (snapshot version : String) (v : CaptureValues) (db : CaptureDb) : CaptureDb :=
  db.upsert (fun r => r.naturalKey = captureKey snapshot v) (v.row snapshot version) (fun _ => rfl)
    v.assign fun _ => rfl

/-- How many rows the statement reports: 1 for an insert, 2 for an update that changes something,
    else 0. -/
def reportedRows (snapshot : String) (v : CaptureValues) (db : CaptureDb) : Nat :=
  match db.rows.find? fun r => r.naturalKey = captureKey snapshot v with
  | none => 1
  | some r => if v.Same r then 0 else 2

/-! ## The run -/

/-- `IngestStats`. -/
structure IngestStats where
  seen : Nat
  ingested : Nat
  updated : Nat
  unmatched : Nat
  invalid : Nat
  unmatchedFiles : List String
deriving DecidableEq

section

variable (i : IngestWorld) (py : SidecarPython) (files : String → SidecarFile)
  (snapshot version : String) (dryRun : Bool)

/-- One turn of the loop, for a file whose reading did not raise. -/
def settleFile (path : String) (s : CaptureDb × IngestStats) : FileOutcome → CaptureDb × IngestStats
  | .invalid => (s.1, { s.2 with invalid := s.2.invalid + 1 })
  | .unmatched =>
    (s.1, { s.2 with
      unmatched := s.2.unmatched + 1
      unmatchedFiles := s.2.unmatchedFiles ++ [py.pathName path] })
  | .dry => (s.1, { s.2 with ingested := s.2.ingested + 1 })
  | .write v =>
    (upsertCapture snapshot version v s.1,
      if 1 < reportedRows snapshot v s.1 then { s.2 with updated := s.2.updated + 1 }
      else { s.2 with ingested := s.2.ingested + 1 })

/-- The loop over the files: an exception ends it. -/
def ingestFiles : List String → CaptureDb × IngestStats →
    (CaptureDb × IngestStats) × Except Raised Unit
  | [], s => (s, .ok ())
  | path :: paths, s =>
    let s := (s.1, { s.2 with seen := s.2.seen + 1 })
    match fileOutcome i py files dryRun path with
    | .error e => (s, .error e)
    | .ok outcome => ingestFiles paths (settleFile py snapshot version path s outcome)

/-- `ingest_directory(conn, telemetry_dir, snapshot=…, version=…, dry_run=…)`, on the sorted names
    that `glob` finds. -/
def ingestDirectory (listing : List String) (db : CaptureDb) :
    (CaptureDb × IngestStats) × Except Raised Unit :=
  ingestFiles i py files snapshot version dryRun listing (db, ⟨0, 0, 0, 0, 0, []⟩)

end

end TraxMania.Ingestion
