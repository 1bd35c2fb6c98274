import TraxMania.Generation.CorridorScore
import TraxMania.Generation.HalfRoutes
import TraxMania.Generation.Stripper

/-
  The base-map generator: the base data read from the database, the candidate validator, the
  artifact of `generate_from_base`, and what `validate_artifact_file` assembles again from it.
-/

namespace TraxMania.Generation.Generator

open TraxMania.Grid Lib Lib.SortBy Lib.Enumerate Route Validation Strip

/-! ## The database -/

/-- A `block_placements` row with `is_free = 0`. -/
structure BlockPlacementRow where
  placementIndex : Int
  blockFamily : Option String
  blockType : Option String
  x : Int
  y : Int
  z : Int
  rotation : Option Int

/-- A `map_checkpoints` row with its absolute position. -/
structure WaypointRow (σ : Type) extends CheckpointRow where
  absX : Option σ
  absY : Option σ
  absZ : Option σ

/-- A `block_geometry` row. -/
structure BlockGeometryRow where
  blockFamily : String
  blockName : String
  info : GeometryInfo

/-- The rows of one map; `id` is the primary key of `route_corridors`. -/
structure MapRows (σ : Type) where
  blockPlacements : List BlockPlacementRow
  waypoints : List (WaypointRow σ)
  corridors : List (StoredCorridor σ)
  ids_nodup : (corridors.map (·.id)).Nodup

structure Database (σ : Type) where
  maps : Int → Option (MapRows σ)
  blockGeometry : List BlockGeometryRow

/-! ## Inputs and failures -/

/-- The knobs that assembly and strip read. -/
structure GenerationInputs where
  baseMapId : Option Int
  randomSeed : Int := 42
  strip : Bool := false
deriving DecidableEq

/-- `_TOP_K_CANDIDATES`. -/
def topKCandidates : Int := 3

/-- What the two entry points raise. -/
inductive Failure where
  | valueError (message : String)
  | runtimeError (message : String)
  | raised (e : PyError)
deriving DecidableEq

/-- An exception of a callee goes through. -/
def passOn {α : Type} : Except PyError α → Except Failure α
  | .ok a => .ok a
  | .error e => .error (.raised e)

/-! ## The base map -/

/-- An entry of the artifact's `map.checkpoints`. -/
structure MapCheckpoint where
  waypointIndex : Int
  waypointOrder : Int
  tag : String
  cell : Cell
deriving DecidableEq

/-- `_BaseMapData`, without the provenance. -/
structure BaseMapData where
  blocks : List MapBlock
  checkpoints : List MapCheckpoint
  anchorCells : List Cell

variable {σ : Type}

/-- The rows of `_CHECKPOINTS_SQL`. -/
def checkpointsQuery (rows : List (WaypointRow σ)) : List (WaypointRow σ) :=
  sortBy (fun r => (toLex (tagRank r.tag, toLex (r.waypointOrder, r.waypointIndex)) :
    Nat ×ₗ Int ×ₗ Int)) (rows.filter fun r => decide (r.tag ∈ anchorTags))

/-- The block dictionary of a row. -/
def BlockPlacementRow.block (r : BlockPlacementRow) : MapBlock where
  family := r.blockFamily.getD "Unknown"
  name := r.blockType.getD "Unknown"
  x := r.x
  y := r.y
  z := r.z
  rotation := r.rotation.getD 0

/-- A row with grid coordinates is listed in the artifact. -/
def WaypointRow.checkpoint? (r : WaypointRow σ) : Option MapCheckpoint :=
  r.cell.map fun cell => ⟨r.waypointIndex, r.waypointOrder, r.tag, cell⟩

/-- `_snap_abs_to_grid`. -/
def snapAbsToGrid [Score σ] (absX absY absZ : σ) : Cell :=
  ⟨Score.floorDiv absX ((32 : Int) : σ), Score.floorDiv absY ((8 : Int) : σ),
    Score.floorDiv absZ ((32 : Int) : σ)⟩

/-- The anchor cell of a row: its grid cell, else its absolute position snapped to the grid. -/
def WaypointRow.anchorCell? [Score σ] (r : WaypointRow σ) : Option Cell :=
  match r.cell with
  | some cell => some cell
  | none =>
    match r.absX, r.absY, r.absZ with
    | some x, some y, some z => some (snapAbsToGrid x y z)
    | _, _, _ => none

/-- `_fetch_base_map` on the rows of the map. -/
def baseMapData [Score σ] (rows : MapRows σ) : BaseMapData where
  blocks := (sortBy (·.placementIndex) rows.blockPlacements).map BlockPlacementRow.block
  checkpoints := (checkpointsQuery rows.waypoints).filterMap WaypointRow.checkpoint?
  anchorCells := (checkpointsQuery rows.waypoints).filterMap WaypointRow.anchorCell?

/-- `_fetch_base_map`. -/
def fetchBaseMap [Score σ] (db : Database σ) (mapId : Int) :
    Except Failure (MapRows σ × BaseMapData) :=
  match db.maps mapId with
  | none => .error (.valueError ("base map_id=" ++ toString mapId ++ " not found"))
  | some rows => .ok (rows, baseMapData rows)

/-! ## The candidate validator -/

/-- `load_geometry_lookup`. -/
def loadGeometryLookup (db : Database σ) : GeometryLookup :=
  db.blockGeometry.foldl (fun d r => d.upsert (r.blockFamily, r.blockName) fun _ => r.info)
    Dict.empty

/-- `load_replay_touched_cells`, as the list of what is added to the set. -/
def loadReplayTouchedCells [Score σ] (py : Python) (rows : MapRows σ) :
    Except PyError (List Cell) :=
  let qualifying := rows.corridors.filter fun r =>
    r.corridorConfidence.any fun c => decide (((0 : Int) : σ) < c)
  (collect (fun _ r => parsePathCells py r.pathCells) 0 qualifying).map List.flatten

/-- `_build_candidate_validator`; a base block is already in the shape `_normalize_block` makes. -/
def buildCandidateValidator [Score σ] (py : Python) (db : Database σ) (rows : MapRows σ)
    (baseBlocks : List MapBlock) : Except PyError (Option (Validator σ)) :=
  let lookup := loadGeometryLookup db
  if lookup.items.isEmpty then .ok none
  else do
    let replayCells ← loadReplayTouchedCells py rows
    let touched := if replayCells.isEmpty then none else some replayCells
    return some fun candidate idx =>
      (scoreCorridor candidate.corridorId idx candidate.pathCells baseBlocks lookup touched).map
        CorridorValidationScore.validationScore

/-! ## The artifact -/

/-- An entry of `route.intervals`. -/
structure IntervalEntry (σ : Type) where
  index : Nat
  srcTag : String
  srcOrder : Int
  dstTag : String
  dstOrder : Int
  chosenCorridorId : Int
  chosenCorridorScore : σ
  pathLengthCells : Int
  expectedTimeMs : Int
deriving DecidableEq

structure StripMetadata where
  stripPolicy : StripPolicy
  keptBlockCount : Nat
  baseBlockCount : Nat
deriving DecidableEq

/-- The artifact, without its provenance and the verdict of the gate. -/
structure Artifact (σ : Type) where
  inputs : GenerationInputs
  intervalCount : Nat
  blocks : List MapBlock
  checkpoints : List MapCheckpoint
  stripped : Option StripMetadata
  intervals : List (IntervalEntry σ)
  cellsTotal : Int
deriving DecidableEq

def intervalEntry (iv : IntervalAssembly σ) : IntervalEntry σ where
  index := iv.index
  srcTag := iv.src.tag
  srcOrder := iv.src.order
  dstTag := iv.dst.tag
  dstOrder := iv.dst.order
  chosenCorridorId := iv.chosen.corridorId
  chosenCorridorScore := iv.chosen.learnedCorridorScore
  pathLengthCells := iv.chosen.pathLength
  expectedTimeMs := iv.chosen.expectedTimeMs

/-- `_interval_entries`. -/
def intervalEntries : Except AssemblyError (AssembledRoute σ) → List (IntervalEntry σ)
  | .error _ => []
  | .ok route => route.intervals.map intervalEntry

/-- `interval_count`. -/
def intervalCount (intervals : List (IntervalEntry σ)) (checkpoints : List MapCheckpoint) : Nat :=
  if intervals.isEmpty then
    max 1 ((checkpoints.map fun c => (c.tag, c.waypointOrder)).dedup.length - 1)
  else intervals.length

/-- The policy of both entry points. -/
def defaultPolicy : StripPolicy := .haloPrism3x7x3PlusAnchorRadius3

/-- The strip, when it is asked for and there is a route. -/
def stripIfAsked (strip : Bool) (route : Except AssemblyError (AssembledRoute σ))
    (base : BaseMapData) : Option StripResult :=
  match strip, route with
  | true, .ok route => some (stripRoute route base.blocks defaultPolicy base.anchorCells)
  | _, _ => none

/-- `stripped_blocks if stripped_blocks is not None else base.blocks`. -/
def emittedBlocks (base : BaseMapData) (strip : Option StripResult) : List MapBlock :=
  (strip.map StripResult.strippedBlocks).getD base.blocks

/-- `_build_artifact`. -/
def buildArtifact (inputs : GenerationInputs) (base : BaseMapData)
    (route : Except AssemblyError (AssembledRoute σ)) (strip : Option StripResult) :
    Artifact σ where
  inputs := inputs
  intervalCount := intervalCount (intervalEntries route) base.checkpoints
  blocks := emittedBlocks base strip
  checkpoints := base.checkpoints
  stripped := strip.map fun s => ⟨s.stripPolicy, s.keptBlockCount, s.baseBlockCount⟩
  intervals := intervalEntries route
  cellsTotal :=
    match route with
    | .error _ => 0
    | .ok route => route.cellsTotal

/-! ## The entry points -/

/-- The call of `assemble_route`, with or without a validator. -/
def assembleArgs (rows : MapRows σ) (mapId randomSeed : Int) (validator : Option (Validator σ)) :
    AssembleArgs σ where
  checkpoints := rows.waypoints.map (·.toCheckpointRow)
  corridors := rows.corridors
  mapId := mapId
  randomSeed := randomSeed
  topKCandidates := topKCandidates
  validator := validator

/-- `generate_from_base`; `schemaError` is what `validate_generated_map` says. -/
def generateFromBase [Score σ] (py : Python) (schemaError : Artifact σ → Option String)
    (db : Database σ) (inputs : GenerationInputs) : Except Failure (Artifact σ) :=
  match inputs.baseMapId with
  | none => .error (.valueError
      "v0 generation requires a base_map_id — scratch generation is deferred to v0.1+")
  | some mapId => do
    let (rows, base) ← fetchBaseMap db mapId
    let validator ← passOn (buildCandidateValidator py db rows base.blocks)
    let route ← passOn (assembleRoute py (assembleArgs rows mapId inputs.randomSeed validator))
    let artifact := buildArtifact inputs base route (stripIfAsked inputs.strip route base)
    match schemaError artifact with
    | some err => .error (.runtimeError ("generated artifact failed schema validation: " ++ err))
    | none => .ok artifact

/-- What `validate_artifact_file` runs the validators on. -/
structure Revalidation (σ : Type) where
  route : Except AssemblyError (AssembledRoute σ)
  blocks : List MapBlock

/-- `validate_artifact_file`, up to the call of the validators. -/
def validateArtifactFile [Score σ] (py : Python) (schemaError : Artifact σ → Option String)
    (db : Database σ) (artifactPath : String) (artifact : Artifact σ) :
    Except Failure (Revalidation σ) :=
  match schemaError artifact with
  | some err => .error (.valueError
      ("artifact at " ++ artifactPath ++ " failed schema validation: " ++ err))
  | none =>
    match artifact.inputs.baseMapId with
    | none => .error (.valueError ("artifact at " ++ artifactPath ++
        " has no base_map_id; validate-generation requires a base-bound run"))
    | some mapId => do
      let (rows, base) ← fetchBaseMap db mapId
      let route ← passOn
        (assembleRoute py (assembleArgs rows mapId artifact.inputs.randomSeed none))
      return ⟨route, emittedBlocks base (stripIfAsked artifact.inputs.strip route base)⟩

end TraxMania.Generation.Generator
