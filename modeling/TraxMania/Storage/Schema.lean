import Mathlib.Data.Rat.Defs
import TraxMania.Lib.Table
import TraxMania.Parsers.Result

/-
  The tables of `migrations/mariadb` that map ingestion and map parsing share: `maps`,
  `block_placements` and `map_checkpoints`, each with its unique key. `Listing` groups the columns
  of `maps` that come from the TMX listing.
-/

namespace TraxMania.Storage
open Lib Parsers

/-- `maps.decoration_parse_status` (migration 011). -/
inductive DecorationStatus
  | unparsed
  | success
  | partly
  | failed
  deriving DecidableEq, Repr

/-- The columns of `maps` that an ingestion run takes from the TMX listing. -/
structure Listing where
  title : Option String
  author : Option String
  environment : Option String
  styleTagsRaw : List String
  lengthEstimateMs : Option Int
  awardCount : Option Int
  averageRating : Option ℚ
  popularityMetric : Option Int
  trackValue : Option Int
  difficulty : Option Int
  hasItems : Bool
  isBlockMode : Bool
  deriving DecidableEq

/-- A row of `maps`. -/
structure MapRow where
  id : Nat
  sourceSystem : String
  sourceMapId : String
  ingestionSnapshot : String
  listing : Listing
  scenery : Scenery
  decorationParseStatus : DecorationStatus
  parserVersion : String
  parseStatus : ParseStatus
  parseErrorCode : Option ParseErrorCode
  parseErrorDetail : Option String
  rawArtifactPath : Option String
  rawArtifactHash : Option String
  createdByVersion : String
  deriving DecidableEq

/-- `uq_maps_natural`. -/
def MapRow.naturalKey (r : MapRow) : String × String × String :=
  (r.sourceSystem, r.sourceMapId, r.ingestionSnapshot)

/-- `block_placements.source_artifact_ids`. -/
structure SourceArtifactIds where
  map : String
  rawArtifactHash : String
  deriving DecidableEq

/-- A row of `block_placements`; `raw_blob` is retired. -/
structure BlockRow (φ : Type) where
  mapId : Nat
  parserVersion : String
  blockFamily : String
  blockType : String
  variant : Option String
  placementIndex : Nat
  x : Option Int
  y : Option Int
  z : Option Int
  rotation : Nat
  flags : Option Int
  isFree : Bool
  absX : Option φ
  absY : Option φ
  absZ : Option φ
  yaw : Option φ
  pitch : Option φ
  roll : Option φ
  createdByVersion : String
  sourceArtifactIds : SourceArtifactIds
  deriving DecidableEq

/-- `uq_block_placement`. -/
def BlockRow.slot {φ : Type} (b : BlockRow φ) : Nat × String × Nat :=
  (b.mapId, b.parserVersion, b.placementIndex)

/-- A row of `map_checkpoints`. -/
structure WaypointRow (φ : Type) where
  mapId : Nat
  parserVersion : String
  waypointIndex : Nat
  tag : String
  waypointOrder : Int
  blockName : String
  isFree : Bool
  x : Option Int
  y : Option Int
  z : Option Int
  absX : Option φ
  absY : Option φ
  absZ : Option φ
  deriving DecidableEq

/-- `uq_map_checkpoints_slot`. -/
def WaypointRow.slot {φ : Type} (w : WaypointRow φ) : Nat × String × Nat :=
  (w.mapId, w.parserVersion, w.waypointIndex)

/-- The database; `nextId` is the auto-increment counter of `maps`. -/
structure Db (φ : Type) where
  nextId : Nat
  maps : Table MapRow.id
  placements : Table (BlockRow.slot (φ := φ))
  checkpoints : Table (WaypointRow.slot (φ := φ))

variable {φ : Type}

/-- The blocks stored for a map, under any parser version. -/
def Db.blocksOf (d : Db φ) (id : Nat) : List (BlockRow φ) :=
  d.placements.rows.filter fun b => b.mapId = id

/-- The map has `parse_status` 'success', parsed by `version`. -/
def Db.ParsedAs (d : Db φ) (id : Nat) (version : String) : Prop :=
  ∃ r ∈ d.maps.rows, r.id = id ∧ r.parseStatus = .success ∧ r.parserVersion = version

instance (d : Db φ) (id : Nat) (version : String) : Decidable (d.ParsedAs id version) :=
  inferInstanceAs (Decidable (∃ r ∈ d.maps.rows,
    r.id = id ∧ r.parseStatus = .success ∧ r.parserVersion = version))

theorem mem_blocksOf {d : Db φ} {id : Nat} {b : BlockRow φ} :
    b ∈ d.blocksOf id ↔ b ∈ d.placements.rows ∧ b.mapId = id := by
  simp [Db.blocksOf]

/-! ## Sources -/

/-- The columns of a map row that say what the map is and which artifact is its own. -/
structure MapSource where
  id : Nat
  naturalKey : String × String × String
  artifactPath : Option String
  artifactHash : Option String
  deriving DecidableEq

def MapRow.source (r : MapRow) : MapSource :=
  ⟨r.id, r.naturalKey, r.rawArtifactPath, r.rawArtifactHash⟩

/-- What the parse pipeline reads and never writes. -/
structure Sources where
  nextId : Nat
  rows : List MapSource

def Db.sources (d : Db φ) : Sources := ⟨d.nextId, d.maps.rows.map MapRow.source⟩

/-- The map has a row. -/
def Sources.Knows (S : Sources) (id : Nat) : Prop := ∃ s ∈ S.rows, s.id = id

theorem sources_knows {d : Db φ} {id : Nat} : d.sources.Knows id ↔ ∃ r ∈ d.maps.rows, r.id = id := by
  simp [Sources.Knows, Db.sources, MapRow.source]

theorem mem_sources {d : Db φ} {s : MapSource} :
    s ∈ d.sources.rows ↔ ∃ r ∈ d.maps.rows, r.source = s := by
  simp [Db.sources]

/-- An update that leaves the source of every row alone. -/
theorem sources_update (d : Db φ) (p : MapRow → Bool) (f : MapRow → MapRow)
    (hf : ∀ r, (f r).id = r.id) (h : ∀ r, (f r).source = r.source) :
    Db.sources { d with maps := d.maps.update p f hf } = d.sources := by
  unfold Db.sources
  dsimp only
  rw [Table.map_update_same _ _ _ _ _ h]

end TraxMania.Storage

/-
  The table `replays` of `migrations/mariadb`, with the columns that replay ingestion and replay
  parsing write.
-/

namespace TraxMania.Storage
open Lib Parsers

/-- `replays.rank_metadata`. -/
structure RankMetadata where
  position : Option Int
  beaten : Option Int
  stuntScore : Option Int
  respawns : Option Int
  playerModel : Option String
  exeBuild : Option String
  replayUploadedAt : Option String
  deriving DecidableEq

/-- A row of `replays`. -/
structure ReplayRow where
  id : Nat
  sourceSystem : String
  sourceReplayId : String
  mapId : Nat
  ingestionSnapshot : String
  playerLogin : Option String
  playerDisplayName : Option String
  finishTimeMs : Option Int
  rankMetadata : RankMetadata
  parseStatus : ParseStatus
  parseErrorCode : Option ParseErrorCode
  parseErrorDetail : Option String
  rawArtifactPath : Option String
  rawArtifactHash : Option String
  breadcrumbsPath : Option String
  breadcrumbsHash : Option String
  createdByVersion : String
  deriving DecidableEq

/-- `uq_replays_natural`. -/
def ReplayRow.naturalKey (r : ReplayRow) : String × String × String :=
  (r.sourceSystem, r.sourceReplayId, r.ingestionSnapshot)

/-- The table, with its auto-increment counter. -/
structure ReplayDb where
  nextId : Nat
  replays : Table ReplayRow.id

/-! ## Finish times -/

/-- A row's finish time, with the columns by which statements find the row. -/
structure Timed where
  id : Nat
  naturalKey : String × String × String
  finishTimeMs : Option Int

def ReplayRow.timed (r : ReplayRow) : Timed := ⟨r.id, r.naturalKey, r.finishTimeMs⟩

structure FinishTimes where
  nextId : Nat
  rows : List Timed

def ReplayDb.finishTimes (d : ReplayDb) : FinishTimes := ⟨d.nextId, d.replays.rows.map ReplayRow.timed⟩

theorem mem_finishTimes {d : ReplayDb} {e : Timed} :
    e ∈ d.finishTimes.rows ↔ ∃ r ∈ d.replays.rows, r.timed = e := by simp [ReplayDb.finishTimes]

/-- What an update by `f` does to the finish times, when it does `g` to each of them. -/
theorem finishTimes_update (d : ReplayDb) (p : ReplayRow → Bool) (f : ReplayRow → ReplayRow)
    (hf : ∀ r, (f r).id = r.id) (q : Timed → Bool) (g : Timed → Timed)
    (hq : ∀ r, p r = q r.timed) (h : ∀ r, (f r).timed = g r.timed) :
    ReplayDb.finishTimes { d with replays := d.replays.update p f hf } =
      { d.finishTimes with rows := d.finishTimes.rows.map fun e => if q e then g e else e } := by
  unfold ReplayDb.finishTimes
  dsimp only
  rw [Table.map_update _ _ _ _ _ q g hq h]

/-- An update that leaves the finish times alone. -/
theorem finishTimes_kept (d : ReplayDb) (p : ReplayRow → Bool) (f : ReplayRow → ReplayRow)
    (hf : ∀ r, (f r).id = r.id) (h : ∀ r, (f r).timed = r.timed) :
    ReplayDb.finishTimes { d with replays := d.replays.update p f hf } = d.finishTimes := by
  unfold ReplayDb.finishTimes
  dsimp only
  rw [Table.map_update_same _ _ _ _ _ h]

end TraxMania.Storage
