import TraxMania.Learning.ConstructionExport

/-
  `tools/realise_generated_map.py`, `tokens_to_blocks`: relative placements become cells, and the
  box around the cells is moved onto the base of the map.
-/

namespace TraxMania.Learning

open TraxMania.Grid Lib.PyText

/-! ## Pass one: cells from an arbitrary origin -/

/-- The variables of the first pass. `raw` keeps the block and the rotation of the token. -/
structure RawState where
  raw : List (Cell × Text × Option Int)
  /-- First-visit order, for REVISIT. -/
  placed : List Cell
  cur : Cell
deriving DecidableEq

def RawState.start : RawState := ⟨[], [], ⟨0, 0, 0⟩⟩

/-- The cursor moves by the way of a placement. -/
def RawState.advance (s : RawState) (block : Text) (rot : Option Int) (dx dy dz : Int) :
    RawState :=
  let cur : Cell := ⟨s.cur.x + dx, s.cur.y + dy, s.cur.z + dz⟩
  ⟨s.raw ++ [(cur, block, rot)], s.placed ++ [cur], cur⟩

/-- The cursor goes back to an earlier placement, if there is one so far back. -/
def RawState.back (s : RawState) (back : Int) : RawState :=
  if 1 ≤ back ∧ back ≤ s.placed.length then
    { s with cur := (s.placed[s.placed.length - back.toNat]?).getD s.cur }
  else s

/-- One turn of the loop over the tokens. A placement needs three numbers. -/
def rawStep (s : RawState) : Token → Except SerializeError RawState
  | .place block d rot _ =>
    match d with
    | dx :: dy :: dz :: _ => .ok (s.advance block rot dx dy dz)
    | _ => .error .indexError
  | .revisit back => .ok (s.back back)
  | .jump => .ok s
  | .gap => .ok s
  | .other _ => .ok s

/-- The first pass. -/
def rawCells (tokens : List Token) : Except SerializeError RawState :=
  tokens.foldlM rawStep RawState.start

/-! ## Pass two: the box onto the base -/

/-- `GRID_X`. -/
def gridX : Int := 48
/-- `GRID_Y`. -/
def gridY : Int := 40
/-- `GRID_Z`. -/
def gridZ : Int := 48
/-- `GROUND_Y`. -/
def groundY : Int := 9

/-- `min(ns)`. -/
def least (ns : List Int) : Int := ns.min?.getD 0
/-- `max(ns)`. -/
def greatest (ns : List Int) : Int := ns.max?.getD 0

/-- `max(ns) - min(ns) + 1`. -/
def extent (ns : List Int) : Int := greatest ns - least ns + 1

/-- `span`. -/
def spanOf (cells : List Cell) : Cell :=
  ⟨extent (cells.map (·.x)), extent (cells.map (·.y)), extent (cells.map (·.z))⟩

/-- The span exceeds the grid. -/
def Oversize (span : Cell) : Prop := gridX < span.x ∨ gridY < span.y ∨ gridZ < span.z

instance oversizeDecidable (span : Cell) : Decidable (Oversize span) := by
  unfold Oversize; infer_instance

/-- The shift of the rows: onto the ground row, or down from the top where that pokes out. -/
def rowShift (ys : List Int) : Int :=
  if gridY ≤ groundY - least ys + greatest ys then (gridY - extent ys) - least ys
  else groundY - least ys

/-- `off`. -/
def offset (cells : List Cell) : Cell :=
  ⟨(gridX - extent (cells.map (·.x))) / 2 - least (cells.map (·.x)), rowShift (cells.map (·.y)),
    (gridZ - extent (cells.map (·.z))) / 2 - least (cells.map (·.z))⟩

/-- A block of the result; its `block_family` is the empty text. -/
structure RealisedBlock where
  blockName : Text
  cell : Cell
  rotation : Int
deriving DecidableEq

/-- The dictionary beside the blocks. -/
structure RealiseInfo where
  outOfBounds : Nat
  span : Cell
  /-- The key `oversize` is there. -/
  oversize : Bool
deriving DecidableEq

/-- The blocks of the second pass. -/
def translateBlocks (off : Cell) (raw : List (Cell × Text × Option Int)) : List RealisedBlock :=
  raw.map fun r => ⟨r.2.1, r.1 + off, r.2.2.getD 0⟩

/-- The second pass. -/
def emitBlocks (raw : List (Cell × Text × Option Int)) : List RealisedBlock × RealiseInfo :=
  let cells := raw.map Prod.fst
  if raw.isEmpty then ([], ⟨0, ⟨0, 0, 0⟩, false⟩)
  else if Oversize (spanOf cells) then ([], ⟨raw.length, spanOf cells, true⟩)
  else (translateBlocks (offset cells) raw, ⟨0, spanOf cells, false⟩)

/-- `tokens_to_blocks(tokens)`. -/
def tokensToBlocks (tokens : List Token) :
    Except SerializeError (List RealisedBlock × RealiseInfo) :=
  (rawCells tokens).map fun s => emitBlocks s.raw

end TraxMania.Learning
