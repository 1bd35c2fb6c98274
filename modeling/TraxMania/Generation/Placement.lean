import TraxMania.Catalogue.Block
import TraxMania.Lib.Packing
import TraxMania.Lib.SortBy

/-
  What the two route walkers share: placements, the grid they build on, the blocks that must face
  the direction of travel, the exceptions they raise.
-/

namespace TraxMania.Generation

open TraxMania.Grid TraxMania.Catalogue

structure Placement where
  blockId : String
  x : Int
  y : Int
  z : Int
  rotation : Int
  variant : Option Int
deriving DecidableEq

namespace Placement

def anchor (p : Placement) : Cell := ⟨p.x, p.y, p.z⟩

/-- `Placement(block_id, *anchor, rotation)`. -/
def ofAnchor (blockId : String) (anchor : Cell) (rotation : Int) : Placement :=
  ⟨blockId, anchor.x, anchor.y, anchor.z, rotation, none⟩

@[simp] theorem anchor_ofAnchor (b : String) (a : Cell) (r : Int) :
    (ofAnchor b a r).anchor = a := rfl
@[simp] theorem blockId_ofAnchor (b : String) (a : Cell) (r : Int) :
    (ofAnchor b a r).blockId = b := rfl
@[simp] theorem rotation_ofAnchor (b : String) (a : Cell) (r : Int) :
    (ofAnchor b a r).rotation = r := rfl

end Placement

/-! ## The grid -/

/-- `GRID_MIN`. -/
def gridMin : Int := 6
/-- `GRID_MAX`. -/
def gridMax : Int := 42
/-- `GROUND_Y`. -/
def groundY : Int := 9
/-- `MAX_Y`. -/
def maxY : Int := groundY + 10

/-- `origin`. -/
def origin : Cell :=
  ⟨gridMin + (gridMax - gridMin) / 2, groundY, gridMin + (gridMax - gridMin) / 2⟩

def CellInBounds (c : Cell) : Prop :=
  gridMin ≤ c.x ∧ c.x < gridMax ∧ groundY ≤ c.y ∧ c.y ≤ maxY ∧ gridMin ≤ c.z ∧ c.z < gridMax

instance (c : Cell) : Decidable (CellInBounds c) := inferInstanceAs (Decidable (_ ∧ _))

/-- `in_bounds(cells)`. -/
def InBounds (cells : List Cell) : Prop := ∀ c ∈ cells, CellInBounds c

instance (cells : List Cell) : Decidable (InBounds cells) :=
  inferInstanceAs (Decidable (∀ c ∈ cells, CellInBounds c))

/-- `[_shift(anchor, c) for c in cells]`. -/
def shiftAll (anchor : Cell) (cells : List Cell) : List Cell := cells.map (anchor + ·)

/-! ## Block ids -/

def isInfix (needle : List Char) : List Char → Bool
  | [] => needle.isEmpty
  | c :: cs => needle.isPrefixOf (c :: cs) || isInfix needle cs

/-- `needle in s`. -/
def occursIn (needle s : String) : Bool := isInfix needle.toList s.toList

/-- `s.startswith(p)`. -/
def startsWith (s p : String) : Bool := p.toList.isPrefixOf s.toList

/-- `DIRECTIONAL_WAYPOINTS`. -/
def directionalWaypoints : List String := ["Checkpoint", "StartFinish"]

/-- `DIRECTIONAL_BLOCK_PATTERNS`. -/
def directionalBlockPatterns : List String := ["Special", "Penalty"]

/-- `_is_directional`, on the block's waypoint and id. -/
def isDirectional (waypoint blockId : String) : Bool :=
  decide (waypoint ∈ directionalWaypoints) ||
    directionalBlockPatterns.any fun p => occursIn p blockId

/-- `GATE_FORWARD_LOCAL_FACE`. -/
def gateForwardLocalFace : Face := 0

/-- `_bias_for(block_id)`. -/
def biasFor {F : Type*} [Mul F] [OfScientific F] (bias : Lib.Dict String F) (blockId : String) : F :=
  bias.items.foldl (fun factor (needle, weight) =>
    if occursIn needle blockId then factor * weight else factor) 1.0

/-! ## Exceptions -/

inductive WalkError where
  | keyError (text : String)
  | valueError (text : String)
  | indexError
  | routeDeadEnd (text : String)
deriving DecidableEq

end TraxMania.Generation

/-
  Pillars under the elevated blocks of a route, from the table that was harvested from the game.
-/

namespace TraxMania.Generation.Supports

open TraxMania.Grid TraxMania.Catalogue Lib Lib.Packing Lib.SortBy

/-! ## The table -/

/-- One pillar within a level's pattern, offset from the anchor. -/
structure PillarSlot where
  dx : Int
  dz : Int
  pillar : String
  variant : Int
  direction : Int

structure PillarRule where
  pattern : List PillarSlot
  uniform : Bool

/-- The table, keyed by the id of the road block. -/
structure PillarRules where
  rules : Dict String PillarRule
  groundY : Int

/-! ## Cells -/

/-- `_footprint`: the cells of the ground variant at an anchor. -/
def footprint (catalogue : Dict String BlockDef) (blockId : String) (anchor : Cell)
    (rotation : Int) : List Cell :=
  match catalogue.get? blockId with
  | none => []
  | some block =>
    match block.variant "ground" 0 with
    | none => []
    | some variant =>
      shiftAll anchor (variant.units.map fun u => rotateOffset u.offset rotation variant.size)

/-- `_footprint` of a placement. -/
def cellsOf (catalogue : Dict String BlockDef) (p : Placement) : List Cell :=
  footprint catalogue p.blockId p.anchor p.rotation

/-- `route_cells`. -/
def routeCells (placements : List Placement) (catalogue : Dict String BlockDef) : Finset Cell :=
  (placements.flatMap (cellsOf catalogue)).toFinset

/-! ## Pillars -/

/-- The lowest of a block's own cells; `none` for a block without any. -/
def baseY (catalogue : Dict String BlockDef) (p : Placement) : Option Int :=
  ((cellsOf catalogue p).map Cell.y).min?

/-- `road_size`. -/
def roadSize (catalogue : Dict String BlockDef) (blockId : String) : Cell :=
  match (catalogue.get? blockId).bind fun road => road.variant "ground" 0 with
  | none => ⟨1, 1, 1⟩
  | some variant => variant.size

/-- `min` of a list that is not empty. -/
def least (xs : List Int) : Int := xs.min?.getD 0

/-- The cells that a slot covers, turned with the road block. -/
def movedCells (catalogue : Dict String BlockDef) (p : Placement) (slot : PillarSlot) : List Cell :=
  (footprint catalogue slot.pillar ⟨slot.dx, 0, slot.dz⟩ slot.direction).map fun c =>
    rotateOffset ⟨c.x, 0, c.z⟩ p.rotation (roadSize catalogue p.blockId)

/-- The pillar of a slot at one level: its anchor is the least corner of the turned cells. -/
def slotPillar (catalogue : Dict String BlockDef) (p : Placement) (y : Int) (slot : PillarSlot) :
    Option Placement :=
  let moved := movedCells catalogue p slot
  if moved = [] then none
  else
    some ⟨slot.pillar, p.x + least (moved.map Cell.x), y, p.z + least (moved.map Cell.z),
      (slot.direction + p.rotation) % 4, some slot.variant⟩

/-- `range(lo, hi)`. -/
def range (lo hi : Int) : List Int := (List.range (hi - lo).toNat).map fun (i : Nat) => lo + i

/-- The pillars that one block of the route asks for, level by level; none at the ground, without a
    rule, or where the rule knows only the lowest level. -/
def pillarsUnder (catalogue : Dict String BlockDef) (rules : PillarRules) (ground : Int)
    (p : Placement) : List Placement :=
  match baseY catalogue p with
  | none => []
  | some base =>
    if base ≤ ground then []
    else
      match rules.rules.get? p.blockId with
      | none => []
      | some rule =>
        if rule.uniform then
          (range ground base).flatMap fun y => rule.pattern.filterMap (slotPillar catalogue p y)
        else []

/-- The key of the sort: bottom-up. -/
def buildKey (q : Placement) : Int ×ₗ Int ×ₗ Int := toLex (q.y, toLex (q.z, q.x))

/-- `build_supports`: a pillar is skipped where it would hit the route or an earlier pillar. -/
def buildSupports (placements : List Placement) (catalogue : Dict String BlockDef)
    (rules : PillarRules) (groundY : Option Int) : List Placement :=
  let ground := groundY.getD rules.groundY
  (pack (cellsOf catalogue) (routeCells placements catalogue)
    ((sortBy buildKey placements).flatMap (pillarsUnder catalogue rules ground))).taken

end TraxMania.Generation.Supports
