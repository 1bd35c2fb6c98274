import TraxMania.Corridor.MapReads
import TraxMania.Corridor.OneGraph
import TraxMania.Lib.Table

/-
  The two builders that replace the stored rows of a map at a classification version:
  `build_route_corridors_for_map` and `build_map_evidence`.
-/

namespace TraxMania.Corridor

open TraxMania.Grid Lib

/-! ## The tables -/

/-- A row of `route_corridors`, the columns that the builder writes. -/
structure CorridorRow where
  mapId : Int
  srcTag : String
  srcOrder : Int
  dstTag : String
  dstOrder : Int
  pathRank : Nat
  pathCells : String
  pathLength : Nat
  containsVirtualEdge : Int
  classificationVersion : String
deriving DecidableEq

/-- The interval of a row. -/
def CorridorRow.interval (r : CorridorRow) : String × Int × String × Int :=
  (r.srcTag, r.srcOrder, r.dstTag, r.dstOrder)

/-- `uq_rc_slot`. -/
def CorridorRow.slot (r : CorridorRow) : Int × (String × Int × String × Int) × Nat × String :=
  (r.mapId, r.interval, r.pathRank, r.classificationVersion)

/-- A row of `traversability_edge_evidence`, with two of its signals. -/
structure StoredEvidence where
  edge : EvidenceRow
  pathSupportCount : Int
  negativeEvidenceCount : Int
deriving DecidableEq

/-- `uq_trv_ev_edge`. -/
def StoredEvidence.slot (r : StoredEvidence) : Int × Int × Int × String :=
  (r.edge.mapId, r.edge.srcBlockId, r.edge.dstBlockId, r.edge.classificationVersion)

/-- An inserted row: the signals are at their schema defaults. -/
def EvidenceRow.stored (r : EvidenceRow) : StoredEvidence := ⟨r, 0, 0⟩

/-- The stored corridors of a map at a version. -/
def storedCorridors (t : Table CorridorRow.slot) (mapId : Int) (version : String) :
    List CorridorRow :=
  t.rows.filter fun r => decide (r.mapId = mapId ∧ r.classificationVersion = version)

/-- The stored evidence of a map at a version. -/
def storedEvidence (t : Table StoredEvidence.slot) (mapId : Int) (version : String) :
    List StoredEvidence :=
  t.rows.filter fun r => decide (r.edge.mapId = mapId ∧ r.edge.classificationVersion = version)

/-- The text of a duplicate-key error. -/
def duplicateEntry : String := "Duplicate entry"

/-- What inserting some rows leaves, or the exception. `accepted` is what the server says to the
    statements apart from the unique key. -/
def insertRows {α κ : Type} {key : α → κ} [DecidableEq κ] (accepted : Except String Unit)
    (rows : List α) (t : Table key) : Except String (Table key) :=
  match accepted, t.insertAll rows with
  | .error message, _ => .error message
  | .ok _, none => .error duplicateEntry
  | .ok _, some t' => .ok t'

theorem rows_of_insertRows {α κ : Type} {key : α → κ} [DecidableEq κ]
    {accepted : Except String Unit} {rows : List α} {t t' : Table key}
    (h : insertRows accepted rows t = .ok t') : t'.rows = t.rows ++ rows := by
  unfold insertRows at h
  split at h
  · cases h
  · cases h
  · next hins =>
    obtain rfl := Except.ok.inj h
    exact Table.rows_of_insertAll hins

/-! ## Route corridors -/

/-- `json.dumps([list(c) for c in path], separators=(",", ":"))`. -/
def dumpCells (path : List Cell) : String :=
  "[" ++ String.intercalate "," (path.map fun c =>
    "[" ++ toString c.x ++ "," ++ toString c.y ++ "," ++ toString c.z ++ "]") ++ "]"

/-- `_path_contains_virtual_edge(path, virtual_edges)`. -/
def pathContainsVirtualEdge (virtualEdges : Finset (Cell × Cell)) : List Cell → Bool
  | a :: b :: path =>
    if (min a b, max a b) ∈ virtualEdges then true
    else pathContainsVirtualEdge virtualEdges (b :: path)
  | _ => false

/-- `ranked[:top_n]`, when there is a positive `top_n`. -/
def keepTop {α : Type} (topN : Option Int) (ranked : List α) : List α :=
  match topN with
  | none => ranked
  | some n => if 0 < n then ranked.take n.toNat else ranked

/-- The row of the path with a rank. -/
def corridorRow (virtualEdges : Finset (Cell × Cell)) (version : String) (mapId : Int)
    (iv : IntervalEnumeration) (rank : Nat) (path : List Cell) : CorridorRow where
  mapId := mapId
  srcTag := iv.srcTag
  srcOrder := iv.srcOrder
  dstTag := iv.dstTag
  dstOrder := iv.dstOrder
  pathRank := rank
  pathCells := dumpCells path
  pathLength := path.length
  containsVirtualEdge := (pathContainsVirtualEdge virtualEdges path).toInt
  classificationVersion := version

/-- The rows of an interval. -/
def intervalRows (virtualEdges : Finset (Cell × Cell)) (version : String) (topN : Option Int)
    (mapId : Int) (iv : IntervalEnumeration) : List CorridorRow :=
  if iv.paths = [] then []
  else (keepTop topN (rankPaths iv.paths)).mapIdx (corridorRow virtualEdges version mapId iv)

section

variable {φ : Type} [FloatOps φ] (order : SetOrder) (reads : MapReads φ)

/-- The second look at the map, for the virtual edges. -/
def virtualEdgesOf : Except String (Finset (Cell × Cell)) := do
  let gridRows ← reads.gridBlocks
  let (graph, anchorSets) ← mapGraph reads gridRows
  let sets ← observationSets order reads anchorSets
  return (buildEnumerationGraph graph.neighbors.of sets).2

/-- The rows of the current enumeration. -/
def corridorRows (version : String) (topN : Option Int) (mapId : Int)
    (intervals : List IntervalEnumeration) : Except String (List CorridorRow) := do
  let virtualEdges ← virtualEdgesOf order reads
  return intervals.flatMap (intervalRows virtualEdges version topN mapId)

/-- `build_route_corridors_for_map(conn, map_id, …)`: the table afterwards, and what it returns.
    The connection commits what it wrote. -/
def buildRouteCorridorsForMap (accepted : Except String Unit) (version : String)
    (topN : Option Int) (mapId : Int) (t : Table CorridorRow.slot) :
    Except String (Table CorridorRow.slot × Nat × Nat) := do
  let intervals ← enumerateMap order reads mapId
  if intervals.isEmpty then return (t, 0, 0)
  else
    let rows ← corridorRows order reads version topN mapId intervals
    if rows = [] then return (t, 0, 0)
    else
      let t' ← insertRows accepted rows (t.delete fun r =>
        decide (r.mapId = mapId ∧ r.classificationVersion = version))
      return (t', intervals.countP fun iv => decide (iv.paths ≠ []), rows.length)

end

/-! ## Edge evidence -/

/-- `build_map_evidence(conn, map_id, …)`, with the answer of `_fetch_grid_placements`. -/
def buildMapEvidence (gridPlacements : Except String (List GridPlacement))
    (accepted : Except String Unit) (version : String) (mapId : Int)
    (t : Table StoredEvidence.slot) : Except String (Table StoredEvidence.slot × StateCounts) := do
  let placements ← gridPlacements
  if placements = [] then return (t, StateCounts.zero)
  else
    let built := buildRowsForMap placements version mapId
    let t' ← insertRows accepted (built.1.map EvidenceRow.stored) (t.delete fun r =>
      decide (r.edge.mapId = mapId ∧ r.edge.classificationVersion = version))
    return (t', built.2)

end TraxMania.Corridor
