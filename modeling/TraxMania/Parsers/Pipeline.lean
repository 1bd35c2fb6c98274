import TraxMania.Lib.SortBy
import TraxMania.Lib.Txn
import TraxMania.Storage.Schema

/-
  The map-parse pipeline (`src/parsers/pipeline.py`): which maps a run fetches, what it does with
  each of them, and the statements it sends, over a connection whose requests may fail.

  The counters of `ParseStats` and the log lines are left out: nothing reads them back.
-/

namespace TraxMania.Parsers
open Lib Lib.Txn Storage

variable {φ : Type}

/-! ## Errors -/

/-- An exception, with `args[0]` when that is a number, and its text. -/
structure Exc where
  code : Option Int
  text : String
  deriving DecidableEq

/-- `_DEADLOCK_ERRNOS`. -/
def deadlockErrnos : List Int := [1205, 1213]

/-- `_DEADLOCK_MAX_ATTEMPTS`. -/
def deadlockMaxAttempts : Nat := 4

def isDeadlock (exc : Exc) : Bool :=
  match exc.code with
  | some code => deadlockErrnos.contains code
  | none => false

/-- A connection to the database. -/
abbrev DbConn (φ : Type) := Conn Exc (Db φ)

/-- A writing statement. -/
abbrev Statement (φ : Type) := Db φ → Except Exc (Db φ)

/-- `s[:2000]`. -/
def truncate (s : String) : String := String.ofList (s.toList.take 2000)

/-! ## Fetching -/

/-- The pipeline object. -/
structure MapParsePipeline where
  parserVersion : String
  createdByVersion : String
  deriving DecidableEq

/-- The arguments of `run`. -/
structure RunArgs where
  snapshotId : Option String
  maxMaps : Option Nat
  retryTransient : Bool
  shardIndex : Int
  shardCount : Int
  deriving DecidableEq

/-- `_UnparsedMap`. -/
structure UnparsedMap where
  id : Nat
  sourceMapId : String
  rawArtifactPath : String
  rawArtifactHash : Option String
  currentParseStatus : ParseStatus
  deriving DecidableEq

def UnparsedMap.needsFullParse (row : UnparsedMap) : Bool := row.currentParseStatus ≠ .success

/-- The three clauses of `_fetch_unparsed`: fresh, retro-fill, retry. -/
def awaitsParse (retryTransient : Bool) (r : MapRow) : Bool :=
  r.parseStatus = .unparsed ||
    (r.parseStatus = .success && r.decorationParseStatus = .unparsed) ||
    (retryTransient && r.parseStatus = .failedTransient)

/-- The snapshot and the shard of a run. -/
def inScope (args : RunArgs) (r : MapRow) : Bool :=
  (match args.snapshotId with
    | some snapshot => decide (r.ingestionSnapshot = snapshot)
    | none => true) &&
  (if args.shardCount > 1 then decide ((r.id : Int) % args.shardCount = args.shardIndex) else true)

/-- A selected row; one without an artifact path is not selected. -/
def toUnparsed (r : MapRow) : Option UnparsedMap :=
  r.rawArtifactPath.map fun path =>
    ⟨r.id, r.sourceMapId, path, r.rawArtifactHash, r.parseStatus⟩

def fetchUnparsed (args : RunArgs) (d : Db φ) : List UnparsedMap :=
  let rows := d.maps.rows.filter fun r =>
    r.rawArtifactPath.isSome && awaitsParse args.retryTransient r && inScope args r
  let sorted := SortBy.sortBy MapRow.id rows
  let limited := match args.maxMaps with
    | some limit => sorted.take limit
    | none => sorted
  limited.filterMap toUnparsed

/-! ## Rows -/

/-- `_FAMILY_RE`: a capital letter and the small ones after it, at least one. -/
def extractBlockFamily (blockType : String) : String :=
  match blockType.toList with
  | [] => "Unknown"
  | c :: rest =>
    let tail := rest.takeWhile Char.isLower
    if c.isUpper && !tail.isEmpty then String.ofList (c :: tail) else "Unknown"

def directionToRotation : Option String → Nat
  | some "East" => 1
  | some "South" => 2
  | some "West" => 3
  | _ => 0

/-- `_block_row`; `none` when `int(flags)` raises. -/
def blockRow (p : MapParsePipeline) (row : UnparsedMap) (placementIndex : Nat)
    (block : ParsedBlock φ) : Option (BlockRow φ) :=
  let blockType := block.name.getD ""
  let plain : Option Int → BlockRow φ := fun flags =>
    { mapId := row.id
      parserVersion := p.parserVersion
      blockFamily := extractBlockFamily blockType
      blockType := blockType
      variant := block.variant
      placementIndex := placementIndex
      x := none, y := none, z := none
      rotation := directionToRotation block.direction
      flags := flags
      isFree := false
      absX := none, absY := none, absZ := none, yaw := none, pitch := none, roll := none
      createdByVersion := p.createdByVersion
      sourceArtifactIds := ⟨toString row.id, row.rawArtifactHash.getD ""⟩ }
  let placed : BlockRow φ → BlockRow φ := fun b =>
    match block.placement with
    | .free absX absY absZ yaw pitch roll =>
      { b with
        isFree := true
        absX := absX, absY := absY, absZ := absZ, yaw := yaw, pitch := pitch, roll := roll }
    | .grid x y z => { b with x := x, y := y, z := z }
  match block.flags with
  | none => some (placed (plain none))
  | some (some n) => some (placed (plain (some n)))
  | some none => none

/-- The rows of the blocks from the index `i` on; what is not a mapping is skipped. -/
def blockRowsFrom (p : MapParsePipeline) (row : UnparsedMap) :
    Nat → List (Option (ParsedBlock φ)) → Option (List (BlockRow φ))
  | _, [] => some []
  | i, none :: blocks => blockRowsFrom p row (i + 1) blocks
  | i, some block :: blocks => do
    let r ← blockRow p row i block
    let rs ← blockRowsFrom p row (i + 1) blocks
    some (r :: rs)

def blockRows (p : MapParsePipeline) (row : UnparsedMap)
    (blocks : List (Option (ParsedBlock φ))) : Option (List (BlockRow φ)) :=
  blockRowsFrom p row 0 blocks

/-- `_waypoint_row`. -/
def waypointRow (p : MapParsePipeline) (row : UnparsedMap) (waypointIndex : Nat)
    (waypoint : ParsedWaypoint φ) : WaypointRow φ :=
  let plain : WaypointRow φ :=
    { mapId := row.id
      parserVersion := p.parserVersion
      waypointIndex := waypointIndex
      tag := waypoint.tag.getD ""
      waypointOrder := waypoint.order.getD 0
      blockName := waypoint.blockName.getD ""
      isFree := false
      x := none, y := none, z := none, absX := none, absY := none, absZ := none }
  match waypoint.placement with
  | .free absX absY absZ _ _ _ => { plain with isFree := true, absX := absX, absY := absY, absZ := absZ }
  | .grid x y z => { plain with x := x, y := y, z := z }

def waypointRows (p : MapParsePipeline) (row : UnparsedMap)
    (waypoints : List (Option (ParsedWaypoint φ))) : List (WaypointRow φ) :=
  waypoints.zipIdx.filterMap fun (w, i) => w.map (waypointRow p row i)

/-! ## Statements -/

/-- `_INSERT_BLOCK_SQL`: the map has to exist and the slot to be free. -/
def insertBlock (b : BlockRow φ) : Statement φ := fun d =>
  if (d.maps.find b.mapId).isNone then
    .error ⟨some 1452, "Cannot add or update a child row: a foreign key constraint fails"⟩
  else
    match d.placements.insert b with
    | some placements => .ok { d with placements := placements }
    | none => .error ⟨some 1062, "Duplicate entry for key 'uq_block_placement'"⟩

/-- `DELETE FROM map_checkpoints WHERE map_id = … AND parser_version = …`. -/
def deleteWaypoints (mapId : Nat) (parserVersion : String) : Statement φ := fun d =>
  .ok { d with checkpoints := d.checkpoints.delete fun w =>
    w.mapId = mapId && w.parserVersion = parserVersion }

/-- `_INSERT_WAYPOINT_SQL`. -/
def insertWaypoint (w : WaypointRow φ) : Statement φ := fun d =>
  if (d.maps.find w.mapId).isNone then
    .error ⟨some 1452, "Cannot add or update a child row: a foreign key constraint fails"⟩
  else
    match d.checkpoints.insert w with
    | some checkpoints => .ok { d with checkpoints := checkpoints }
    | none => .error ⟨some 1062, "Duplicate entry for key 'uq_map_checkpoints_slot'"⟩

/-- `UPDATE maps SET f WHERE id = …`. -/
def updateMap (id : Nat) (f : MapRow → MapRow) (hf : ∀ r, (f r).id = r.id) : Statement φ := fun d =>
  .ok { d with maps := d.maps.update (fun r => r.id = id) f hf }

/-- `_UPDATE_MAP_SCENERY_SQL`. -/
def setScenery (scenery : Scenery) (r : MapRow) : MapRow :=
  { r with scenery := scenery, decorationParseStatus := .success }

/-- `_UPDATE_MAP_SUCCESS_SQL`. -/
def setSuccess (p : MapParsePipeline) (output : Output φ) (r : MapRow) : MapRow :=
  { setScenery output.scenery r with
    parseStatus := .success
    parseErrorCode := none
    parseErrorDetail := none
    parserVersion := p.parserVersion
    listing := { r.listing with
      title := output.title <|> r.listing.title
      author := output.author <|> r.listing.author
      environment := output.environment <|> r.listing.environment
      hasItems := output.hasItems.getD r.listing.hasItems
      isBlockMode := output.isBlockMode.getD r.listing.isBlockMode } }

/-- `(error_detail or "")[:2000] or None`. -/
def storedDetail (detail : Option String) : Option String :=
  let text := truncate (detail.getD "")
  if text = "" then none else some text

/-- `_UPDATE_MAP_FAILURE_SQL`. -/
def setFailure (p : MapParsePipeline) (status : ParseStatus) (code : ParseErrorCode)
    (detail : Option String) (r : MapRow) : MapRow :=
  { r with
    parseStatus := status
    parseErrorCode := some code
    parseErrorDetail := storedDetail detail
    parserVersion := p.parserVersion
    decorationParseStatus :=
      if r.decorationParseStatus = .success then r.decorationParseStatus else .failed }

theorem setScenery_id (scenery : Scenery) (r : MapRow) : (setScenery scenery r).id = r.id := rfl

theorem setSuccess_id (p : MapParsePipeline) (output : Output φ) (r : MapRow) :
    (setSuccess p output r).id = r.id := rfl

theorem setFailure_id (p : MapParsePipeline) (status : ParseStatus) (code : ParseErrorCode)
    (detail : Option String) (r : MapRow) : (setFailure p status code detail r).id = r.id := rfl

def updateScenery (id : Nat) (scenery : Scenery) : Statement φ :=
  updateMap id (setScenery scenery) (setScenery_id scenery)

def updateSuccess (p : MapParsePipeline) (id : Nat) (output : Output φ) : Statement φ :=
  updateMap id (setSuccess p output) (setSuccess_id p output)

def updateFailure (p : MapParsePipeline) (id : Nat) (status : ParseStatus) (code : ParseErrorCode)
    (detail : Option String) : Statement φ :=
  updateMap id (setFailure p status code detail) (setFailure_id p status code detail)

/-- The statements of `_write_parse_result`. A batch counts as one statement for each row. -/
def parseResultStatements (p : MapParsePipeline) (row : UnparsedMap) (rows : List (BlockRow φ))
    (waypoints : List (WaypointRow φ)) (output : Output φ) : List (Statement φ) :=
  rows.map insertBlock ++
    (if waypoints.isEmpty then []
      else deleteWaypoints row.id p.parserVersion :: waypoints.map insertWaypoint) ++
    [updateSuccess p row.id output]

/-! ## One map -/

/-- `_write_failure`. Its exceptions leave the run. -/
def writeFailure (p : MapParsePipeline) (id : Nat) (status : ParseStatus) (code : ParseErrorCode)
    (detail : Option String) : DbConn φ Unit :=
  atomically [updateFailure p id status code detail]

/-- `_write_scenery_only`. -/
def writeSceneryOnly (row : UnparsedMap) (output : Output φ) : DbConn φ Unit :=
  tryCatch (atomically [updateScenery row.id output.scenery]) fun _ => rollback

/-- The attempts of `_write_success` when `n` of them are left. -/
def writeAttempts (write : DbConn φ Unit) (giveUp : Exc → DbConn φ Unit) : Nat → DbConn φ Unit
  | 0 => pure ()
  | n + 1 => tryCatch write fun exc => do
    rollback
    if isDeadlock exc && 0 < n then writeAttempts write giveUp n else giveUp exc

/-- `_write_success`. -/
def writeSuccess (p : MapParsePipeline) (row : UnparsedMap) (output : Output φ) : DbConn φ Unit :=
  match blockRows p row output.blocks with
  | none => throw ⟨none, "int() argument"⟩
  | some rows =>
    let waypoints := waypointRows p row output.waypoints
    writeAttempts (atomically (parseResultStatements p row rows waypoints output))
      (fun exc => writeFailure p row.id .failedTransient .unknown
        (some (truncate ("db insert: " ++ exc.text))))
      deadlockMaxAttempts

/-- What `_process_one` meets: no artifact at the path, a parser that raises, or its result. -/
inductive Parse (φ : Type)
  | missing
  | crashed (typeName text : String)
  | returned (result : ParseResult φ)

/-- The output of a parse that succeeded. -/
def Parse.accepted : Parse φ → Option (Output φ)
  | .returned result => result.accepted
  | _ => none

def processOne (p : MapParsePipeline) (row : UnparsedMap) (parse : Parse φ) : DbConn φ Unit :=
  match parse with
  | .missing =>
    writeFailure p row.id .failedTransient .ioError
      (some ("artifact missing: " ++ row.rawArtifactPath))
  | .crashed typeName text =>
    writeFailure p row.id .failedTransient .wrapperCrash
      (some (truncate (typeName ++ ": " ++ text)))
  | .returned result =>
    match result.accepted with
    | none => writeFailure p row.id result.status result.errorCode result.errorDetail
    | some output =>
      if row.needsFullParse then writeSuccess p row output else writeSceneryOnly row output

/-- `run`, when the parser does `parse` on the rows it fetches. -/
def run (p : MapParsePipeline) (args : RunArgs) (parse : UnparsedMap → Parse φ) : DbConn φ Unit := do
  let maps ← select (fetchUnparsed args)
  forM maps fun row => processOne p row (parse row)

end TraxMania.Parsers
