import TraxMania.Corridor.Enumeration
import TraxMania.Lib.Dict
import TraxMania.Lib.Firsts
import Mathlib.Data.List.Basic
import Mathlib.Order.Defs.LinearOrder
import Mathlib.Data.List.MinMax

/-
  Which block families carry the car, and the label of the edge between two families; the cells of a
  map and the edges between them, as three parts of the source see them: the reachability graph
  (`_build_cell_graph`), the rows of the evidence table (`_build_rows_for_map`) and the index of the
  signal updates (`_cell_to_placement_map`).
-/

namespace TraxMania.Corridor

open TraxMania.Grid Lib

/-! ## The buckets -/

/-- `FamilyBucket`. -/
inductive FamilyBucket
  | drivable
  | nonDrivable
  | ambiguous
deriving DecidableEq, Repr

/-- `DRIVABLE_FAMILIES`. -/
def drivableFamilies : List String :=
  ["Platform", "Road", "Track", "Gate", "Technics", "Rally", "Snow", "Dirt"]

/-- `NON_DRIVABLE_FAMILIES`. -/
def nonDrivableFamilies : List String :=
  ["Deco", "Structure", "Stand", "Canopy", "Stadium", "Water", "Void", "Lake", "Ground", "Grass",
    "Land", "Unknown"]

/-- `AMBIGUOUS_FAMILIES`. -/
def ambiguousFamilies : List String :=
  ["Open", "Stage", "Items", "Nations", "Special", "Trackmania", "Tm", "Block", "Wood", "Plastic"]

/-- `classify_family(family)`; a family in no bucket is ambiguous. -/
def classifyFamily (family : String) : FamilyBucket :=
  if family ∈ drivableFamilies then .drivable
  else if family ∈ nonDrivableFamilies then .nonDrivable
  else if family ∈ ambiguousFamilies then .ambiguous
  else .ambiguous

/-- `CLASSIFICATION_VERSION`. -/
def classificationVersion : String := "0.1.0"

namespace FamilyBucket

/-- The order of the promotion rule: DRIVABLE > AMBIGUOUS > NON_DRIVABLE. -/
def rank : FamilyBucket → Nat
  | drivable => 2
  | ambiguous => 1
  | nonDrivable => 0

/-- The two conditions under which a layered placement replaces the one before it. -/
def Promotes (existing new : FamilyBucket) : Prop :=
  existing = nonDrivable ∧ new ≠ nonDrivable ∨ existing = ambiguous ∧ new = drivable

instance : DecidableRel Promotes := fun a b => by unfold Promotes; infer_instance

theorem promotes_iff (existing new : FamilyBucket) :
    Promotes existing new ↔ existing.rank < new.rank := by
  cases existing <;> cases new <;> decide

end FamilyBucket

/-! ## Labels -/

/-- `STATE_SEED_VALID`, `STATE_UNSUPPORTED`, `STATE_UNKNOWN`. -/
inductive EdgeState
  | seedValid
  | unsupported
  | unknown
deriving DecidableEq, Repr

/-- `EdgeLabel`. -/
structure EdgeLabel where
  state : EdgeState
  ruleSupport : Bool
deriving DecidableEq, Repr

/-- `label_edge(src_family, dst_family)`. -/
def labelEdge (srcFamily dstFamily : String) : EdgeLabel :=
  let src := classifyFamily srcFamily
  let dst := classifyFamily dstFamily
  if src = .nonDrivable ∨ dst = .nonDrivable then ⟨.unsupported, false⟩
  else if src = .drivable ∧ dst = .drivable then ⟨.seedValid, true⟩
  else ⟨.unknown, false⟩

theorem labelEdge_comm (a b : String) : labelEdge a b = labelEdge b a := by
  unfold labelEdge
  simp only [or_comm, and_comm]

theorem labelEdge_seedValid {a b : String} :
    (labelEdge a b).state = .seedValid ↔
      classifyFamily a = .drivable ∧ classifyFamily b = .drivable := by
  unfold labelEdge
  cases classifyFamily a <;> cases classifyFamily b <;> decide

/-! ## Placements and states -/

variable {β γ : Type*}

/-- A row `(placement_id, x, y, z, block_family)`. -/
structure GridPlacement where
  id : Int
  cell : Cell
  family : String
deriving DecidableEq

/-- `classify_family` of the placement's family. -/
def GridPlacement.bucket (p : GridPlacement) : FamilyBucket := classifyFamily p.family

/-! ## One placement for each cell -/

/-- The body of the loop over the rows, for entries with a bucket: the first entry of a cell stays
    until one of a better bucket comes. -/
def settle (bucket : β → FamilyBucket) (cells : Dict Cell β) (row : Cell × β) : Dict Cell β :=
  cells.upsert row.1 fun
    | none => row.2
    | some existing =>
      if (bucket existing).Promotes (bucket row.2) then row.2 else existing

/-- The loop. -/
def resolve (bucket : β → FamilyBucket) (rows : List (Cell × β)) : Dict Cell β :=
  rows.foldl (settle bucket) Dict.empty

/-- `cell_to_family` in `_build_cell_graph`. -/
def cellToFamily (rows : List (Cell × String)) : Dict Cell String := resolve classifyFamily rows

/-- `cell_to` in `_build_rows_for_map`. -/
def cellTo (placements : List GridPlacement) : Dict Cell (Int × String × FamilyBucket) :=
  resolve (fun entry => entry.2.2)
    (placements.map fun p => (p.cell, (p.id, p.family, classifyFamily p.family)))

/-- `_cell_to_placement_map(placements)`. -/
def cellToPlacementMap (placements : List GridPlacement) : Dict Cell Int :=
  (resolve (fun entry => entry.2)
    (placements.map fun p => (p.cell, (p.id, classifyFamily p.family)))).mapVal Prod.fst

/-! ## The edges -/

/-- The six cells around a cell, in the order the loops try them. -/
def axisNeighbors (c : Cell) : List Cell :=
  [⟨c.x + 1, c.y, c.z⟩, ⟨c.x - 1, c.y, c.z⟩,
   ⟨c.x, c.y + 1, c.z⟩, ⟨c.x, c.y - 1, c.z⟩,
   ⟨c.x, c.y, c.z + 1⟩, ⟨c.x, c.y, c.z - 1⟩]

/-- The turns of the two nested loops that find an entry on the other side. -/
def adjacentEntries (cells : Dict Cell β) : List ((Cell × β) × (Cell × β)) :=
  cells.items.flatMap fun entry =>
    (axisNeighbors entry.1).filterMap fun nb =>
      (cells.get? nb).map fun nbEntry => (entry, (nb, nbEntry))

/-- How many edges are in each state. -/
structure StateCounts where
  seedValid : Nat
  unsupported : Nat
  unknown : Nat
deriving DecidableEq, Repr

namespace StateCounts

def zero : StateCounts := ⟨0, 0, 0⟩

/-- `counts[state] += 1`. -/
def bump (counts : StateCounts) : EdgeState → StateCounts
  | .seedValid => { counts with seedValid := counts.seedValid + 1 }
  | .unsupported => { counts with unsupported := counts.unsupported + 1 }
  | .unknown => { counts with unknown := counts.unknown + 1 }

end StateCounts

/-- A neighbour map, `defaultdict(list)`. -/
abbrev NeighborMap := Dict Cell (List Cell)

namespace NeighborMap

/-- `neighbors[a].append(b)`. -/
def append (neighbors : NeighborMap) (a b : Cell) : NeighborMap :=
  neighbors.upsert a fun old => old.getD [] ++ [b]

/-- `neighbors.get(c, ())`. -/
def of (neighbors : NeighborMap) (c : Cell) : List Cell := neighborsOf neighbors.items c

theorem of_append_self (neighbors : NeighborMap) (a b : Cell) :
    (neighbors.append a b).of a = neighbors.of a ++ [b] := by
  show ((neighbors.append a b).get? a).getD [] = _
  unfold append
  rw [Dict.get?_upsert, if_pos rfl]
  rfl

theorem of_append_ne (neighbors : NeighborMap) {a c : Cell} (b : Cell) (h : c ≠ a) :
    (neighbors.append a b).of c = neighbors.of c := by
  show ((neighbors.append a b).get? c).getD [] = _
  unfold append
  rw [Dict.get?_upsert, if_neg h]
  rfl

end NeighborMap

/-- What `_build_cell_graph` returns. -/
structure CellGraph where
  cellToFamily : Dict Cell String
  neighbors : NeighborMap
  counts : StateCounts

/-- `tuple(sorted((cell, nb)))`. -/
def cellPair (e : (Cell × β) × (Cell × β)) : Cell × Cell :=
  (min e.1.1 e.2.1, max e.1.1 e.2.1)

/-- `_build_cell_graph`, the body of the loop for a pair not seen before. -/
def graphEdge (acc : NeighborMap × StateCounts) (e : (Cell × String) × (Cell × String)) :
    NeighborMap × StateCounts :=
  let label := labelEdge e.1.2 e.2.2
  (if label.state = .seedValid
    then (acc.1.append e.1.1 e.2.1).append e.2.1 e.1.1 else acc.1,
   acc.2.bump label.state)

/-- `_build_cell_graph(rows)`. -/
def buildCellGraph (rows : List (Cell × String)) : CellGraph :=
  let cells := cellToFamily rows
  let out := ((adjacentEntries cells).foldl (seenStep cellPair graphEdge)
    (∅, (Dict.empty, StateCounts.zero))).2
  ⟨cells, out.1, out.2⟩

/-- A row that `_INSERT_SQL` inserts. -/
structure EvidenceRow where
  mapId : Int
  srcBlockId : Int
  dstBlockId : Int
  traversabilityState : EdgeState
  ruleSupport : Int
  classificationVersion : String
deriving DecidableEq

/-- `(pid, nb_pid) if pid < nb_pid else (nb_pid, pid)`. -/
def loHi (pid nbPid : Int) : Int × Int := if pid < nbPid then (pid, nbPid) else (nbPid, pid)

/-- `(lo, hi)` of a turn. -/
def idPair (e : (Cell × Int × String × FamilyBucket) × (Cell × Int × String × FamilyBucket)) :
    Int × Int := loHi e.1.2.1 e.2.2.1

/-- `_build_rows_for_map`, the body of the loop for a pair not seen before. -/
def rowEdge (classificationVersion : String) (mapId : Int) (acc : List EvidenceRow × StateCounts)
    (e : (Cell × Int × String × FamilyBucket) × (Cell × Int × String × FamilyBucket)) :
    List EvidenceRow × StateCounts :=
  let label := labelEdge e.1.2.2.1 e.2.2.2.1
  (acc.1 ++ [⟨mapId, (idPair e).1, (idPair e).2, label.state, label.ruleSupport.toInt,
    classificationVersion⟩], acc.2.bump label.state)

/-- The body of the loop: `lo == hi` is skipped before the pair is looked up. -/
def rowStep (classificationVersion : String) (mapId : Int)
    (s : Finset (Int × Int) × List EvidenceRow × StateCounts)
    (e : (Cell × Int × String × FamilyBucket) × (Cell × Int × String × FamilyBucket)) :
    Finset (Int × Int) × List EvidenceRow × StateCounts :=
  if (idPair e).1 = (idPair e).2 then s
  else seenStep idPair (rowEdge classificationVersion mapId) s e

/-- `_build_rows_for_map(placements, classification_version, map_id)`. -/
def buildRowsForMap (placements : List GridPlacement) (classificationVersion : String)
    (mapId : Int) : List EvidenceRow × StateCounts :=
  ((adjacentEntries (cellTo placements)).foldl (rowStep classificationVersion mapId)
    (∅, ([], StateCounts.zero))).2

end TraxMania.Corridor
