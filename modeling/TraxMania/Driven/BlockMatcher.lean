import TraxMania.Catalogue.Block
import TraxMania.Generation.RouteTypes
import TraxMania.Lib.Firsts

/-
  The block matcher: world metres to grid cells, the cells and the volumes of placements, the index
  that says which placements a position could be on, and which samples are ballistic.
-/

namespace TraxMania.Driven

open TraxMania.Grid TraxMania.Catalogue TraxMania.Generation.Route Lib

/-! ## Floats and positions -/

/-- The floats of positions, with `math.floor`. -/
class Metres (σ : Type) extends Score σ where
  /-- `math.floor`. -/
  floor : σ → Int

instance metresRat : Metres ℚ where
  floor := Rat.floor

/-- A position in metres. -/
structure Point (σ : Type) where
  x : σ
  y : σ
  z : σ
deriving DecidableEq

/-- The functions of the `math` module that the matcher calls. -/
structure Math (σ : Type) where
  cos : σ → σ
  sin : σ → σ
  /-- `math.dist`. -/
  dist : Point σ → Point σ → σ

section Numbers

variable {σ : Type} [Metres σ]

/-- `abs`. -/
def fabs (x : σ) : σ := max x (-x)

/-- An integer constant of the module. -/
def const (n : Int) : σ := (n : σ)

/-- `n / 2.0`. -/
def half (x : σ) : σ := x / const 2

/-- `CELL_SIZE_M`. -/
def cellSizeM : σ := const 32
/-- `LEVEL_HEIGHT_M`. -/
def levelHeightM : σ := const 8
/-- `GROUND_ROW`. -/
def groundRow : Int := 9
/-- `GROUND_ABS_Y_M`. -/
def groundAbsYM : σ := const 8
/-- `GRAVITY_MPS2`. -/
def gravityMps2 : σ := const (-24)
/-- `BALLISTIC_TOLERANCE_MPS2`. -/
def ballisticToleranceMps2 : σ := const 8

/-- A position in a grid of the given cell size and level height whose row `row` sits at the
    absolute height `rowY`. -/
def calibratedCell (cellSize levelHeight : σ) (row : Int) (rowY : σ) (p : Point σ) : Cell :=
  ⟨Metres.floor (p.x / cellSize), Metres.floor (const row + (p.y - rowY) / levelHeight),
    Metres.floor (p.z / cellSize)⟩

/-- `to_cell(x, y, z)`. -/
def toCell (p : Point σ) : Cell := calibratedCell cellSizeM levelHeightM groundRow groundAbsYM p

end Numbers

/-! ## Placements and the cells they cover -/

/-- A `block_placements` row; `index` is its id. -/
structure Placement (σ : Type) where
  index : Nat
  blockType : String
  variant : Int
  isFree : Bool
  /-- `x`, `y` and `z`. -/
  cell : Option Cell
  rotation : Int
  /-- `abs_x`, `abs_y` and `abs_z`. -/
  abs : Option (Point σ)
  yaw : σ
  pitch : σ
  roll : σ

abbrev BlockCatalogue := Dict String BlockDef

section Footprints

variable {σ : Type}

/-- `kinds`: the variant kinds in the order in which they are tried. -/
def Placement.kinds (p : Placement σ) : List String :=
  if p.cell.any fun c => groundRow < c.y then ["air", "ground"] else ["ground", "air"]

/-- `_pick_variant`. -/
def pickVariant (block : BlockDef) (p : Placement σ) : Option BlockVariant :=
  (p.kinds.findSome? fun kind => block.variant kind p.variant).or
    ((p.kinds.findSome? fun kind => block.variant kind 0).or block.variants.head?)

/-- The cells of a variant's units at a rotation, its turned box with its min corner at `origin`. -/
def unitCells (v : BlockVariant) (origin : Cell) (rotation : Int) : List Cell :=
  v.units.map fun unit => origin + rotateOffset unit.offset rotation v.size

/-- `range(n)`. -/
def upTo (n : Int) : List Int := (List.range n.toNat).map Int.ofNat

/-- The cells of a turned box. -/
def boxCells (size origin : Cell) (rotation : Int) : List Cell :=
  let s := rotatedSize size rotation
  (upTo s.x).flatMap fun dx => (upTo s.y).flatMap fun dy => (upTo s.z).map fun dz =>
    origin + ⟨dx, dy, dz⟩

/-- `grid_footprint_cells`. -/
def gridFootprintCells (catalogue : BlockCatalogue) (p : Placement σ) : List Cell :=
  match p.isFree, p.cell with
  | false, some origin =>
    match (catalogue.get? p.blockType).bind fun block => pickVariant block p with
    | none => [origin]
    | some variant =>
      if variant.units ≠ [] then firsts id (unitCells variant origin p.rotation)
      else boxCells variant.size origin p.rotation
  | _, _ => []

end Footprints

/-! ## Volumes of free placements -/

/-- `OrientedBox`. -/
structure OrientedBox (σ : Type) where
  cx : σ
  cy : σ
  cz : σ
  hx : σ
  hy : σ
  hz : σ
  yaw : σ
  placementIndex : Nat

section Boxes

variable {σ : Type} [Metres σ] (math : Math σ)

/-- `contains(x, y, z)`. -/
def OrientedBox.contains (b : OrientedBox σ) (p : Point σ) : Bool :=
  let dx := p.x - b.cx
  let dy := p.y - b.cy
  let dz := p.z - b.cz
  let c := math.cos (-b.yaw)
  let s := math.sin (-b.yaw)
  decide (fabs (dx * c - dz * s) ≤ b.hx) && decide (fabs dy ≤ b.hy) &&
    decide (fabs (dx * s + dz * c) ≤ b.hz)

/-- `anchor`: what the absolute position of a free placement refers to. -/
inductive FreeAnchor where
  | corner
  | center
deriving DecidableEq

/-- The size of the variant that a free placement shows. -/
def freeSize (catalogue : BlockCatalogue) (p : Placement σ) : Cell :=
  (((catalogue.get? p.blockType).bind fun block => pickVariant block p).map
    BlockVariant.size).getD ⟨1, 1, 1⟩

/-- The half extents of a free placement, grown when the block is tilted. -/
def freeExtents (catalogue : BlockCatalogue) (p : Placement σ) : Point σ :=
  let size := freeSize catalogue p
  let ex : σ := half (const size.x * cellSizeM)
  let ey : σ := half (const size.y * levelHeightM)
  let ez : σ := half (const size.z * cellSizeM)
  let tilt := max (fabs p.pitch) (fabs p.roll)
  if const 1 / const 1000 < tilt then
    let grow := fabs (math.sin tilt) * max (max ex ey) ez
    ⟨ex + grow, ey + grow, ez + grow⟩
  else ⟨ex, ey, ez⟩

/-- `free_placement_box`. -/
def freePlacementBox (catalogue : BlockCatalogue) (anchor : FreeAnchor) (padM : σ)
    (p : Placement σ) : Option (OrientedBox σ) :=
  match p.isFree, p.abs with
  | true, some pos =>
    let e := freeExtents math catalogue p
    let c := math.cos p.yaw
    let s := math.sin p.yaw
    let centre : Point σ :=
      match anchor with
      | .corner => ⟨pos.x + (e.x * c - e.z * s), pos.y + e.y, pos.z + (e.x * s + e.z * c)⟩
      | .center => pos
    some ⟨centre.x, centre.y, centre.z, e.x + padM, e.y + padM, e.z + padM, p.yaw, p.index⟩
  | _, _ => none

end Boxes

/-! ## The candidate index -/

/-- `MAX_PLACEMENTS_PER_CELL`. -/
def maxPlacementsPerCell : Nat := 16

/-- Another owner of a cell, unless the cell has its cap of them. -/
def addOwner (cells : Dict Cell (List Nat)) (cell : Cell) (owner : Nat) : Dict Cell (List Nat) :=
  cells.upsert cell fun old =>
    let bucket := old.getD []
    if bucket.length < maxPlacementsPerCell then bucket ++ [owner] else bucket

/-- `CandidateIndex`: the placements of each cell and the volumes of the free ones. -/
structure CandidateIndex (σ : Type) where
  cells : Dict Cell (List Nat)
  boxes : List (OrientedBox σ)

section Index

variable {σ : Type} [Metres σ] (math : Math σ)

/-- `CandidateIndex(placements, catalogue, …)`. -/
def CandidateIndex.init (catalogue : BlockCatalogue) (freeAnchor : FreeAnchor) (freePadM : σ)
    (placements : List (Placement σ)) : CandidateIndex σ where
  cells := (placements.filter fun p => !p.isFree).foldl
    (fun cells p => (gridFootprintCells catalogue p).foldl
      (fun cells cell => addOwner cells cell p.index) cells) Dict.empty
  boxes := (placements.filter (·.isFree)).filterMap
    (freePlacementBox math catalogue freeAnchor freePadM)

/-- `grid_candidates(x, y, z, dy)`. -/
def CandidateIndex.gridCandidates (index : CandidateIndex σ) (p : Point σ) (dy : Int) : List Nat :=
  (index.cells.get? (toCell p + ⟨0, dy, 0⟩)).getD []

/-- `free_candidates(x, y, z)`. -/
def CandidateIndex.freeCandidates (index : CandidateIndex σ) (p : Point σ) : List Nat :=
  (index.boxes.filter fun b => b.contains math p).map OrientedBox.placementIndex

end Index

/-! ## Samples -/

/-- One trajectory sample. -/
structure Sample (σ : Type) where
  pos : Point σ
  vy : σ
  timeMs : σ

section Samples

variable {σ : Type} [Metres σ]

/-- The vertical acceleration between two samples, when time passes between them. -/
def ballistic (a b : Sample σ) : Bool :=
  let dt := (b.timeMs - a.timeMs) / const 1000
  if dt ≤ const 0 then false
  else
    let ay := (b.vy - a.vy) / dt
    decide (gravityMps2 - ballisticToleranceMps2 ≤ ay) &&
      decide (ay ≤ gravityMps2 + ballisticToleranceMps2)

/-- `classify_airborne(samples)[i]`: the first and the last sample have one neighbour only. -/
def airborneAt (samples : List (Sample σ)) (i : Nat) : Bool :=
  match samples[i - 1]?, samples[i + 1]? with
  | some a, some b => i ≠ 0 && ballistic a b
  | _, _ => false

end Samples

end TraxMania.Driven
