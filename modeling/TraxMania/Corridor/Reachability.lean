import TraxMania.Corridor.MapReads
import TraxMania.Lib.UnionFind
import Mathlib.Algebra.Order.Field.Rat

/-
  Per-map reachability (`validate_map`) and the report over a validation set (`validate_set`).
-/

namespace TraxMania.Corridor

open TraxMania.Grid Lib

variable {φ : Type}

/-! ## The numbers of a map -/

/-- `MapReachability`. -/
structure MapReachability where
  mapId : Int
  totalCells : Nat
  totalEdges : Nat
  seedValidEdges : Nat
  unsupportedEdges : Nat
  unknownEdges : Nat
  anchorSetsTotal : Nat
  anchorSetsReachable : Nat
  spawnAnchorCells : Nat
  observationsAvailable : Nat
  observationsApplied : Nat
  anchorSetsReachableSeedOnly : Nat
  errors : List String

namespace MapReachability

/-- `MapReachability(map_id=map_id, errors=errors)`: all counters at their default. -/
def blank (mapId : Int) (errors : List String) : MapReachability :=
  ⟨mapId, 0, 0, 0, 0, 0, 0, 0, 0, 0, 0, 0, errors⟩

/-- `reachability_fraction`; 1 when there is nothing to reach. -/
def reachabilityFraction (m : MapReachability) : ℚ :=
  if m.anchorSetsTotal = 0 then 1 else (m.anchorSetsReachable : ℚ) / m.anchorSetsTotal

/-- `passes_reachability`. -/
def passesReachability (m : MapReachability) : Prop := 1 ≤ m.reachabilityFraction

instance : DecidablePred passesReachability := fun m => by
  unfold passesReachability
  infer_instance

theorem passes_iff (m : MapReachability) :
    m.passesReachability ↔ m.anchorSetsTotal ≤ m.anchorSetsReachable := by
  unfold passesReachability reachabilityFraction
  split
  · next h => simp [h]
  · next h =>
    have hpos : (0 : ℚ) < m.anchorSetsTotal := by exact_mod_cast Nat.pos_of_ne_zero h
    rw [le_div_iff₀ hpos, one_mul, Nat.cast_le]

end MapReachability

/-! ## Breadth-first reachability -/

namespace NeighborMap

/-- All cells in the lists of the map. -/
def area (neighbors : NeighborMap) : Finset Cell := (neighbors.items.flatMap Prod.snd).toFinset

theorem mem_area (neighbors : NeighborMap) (c : Cell) : ∀ d ∈ neighbors.of c, d ∈ neighbors.area := by
  intro d hd
  unfold of neighborsOf at hd
  cases h : neighbors.items.lookup c with
  | none =>
    rw [h] at hd
    cases hd
  | some nbs =>
    rw [h] at hd
    have hmem : (c, nbs) ∈ neighbors.items := Dict.mem_items_of_get? h
    exact List.mem_toFinset.mpr (List.mem_flatMap.mpr ⟨(c, nbs), hmem, hd⟩)

/-- The turns of `for cell, nbs in neighbors.items(): for nb in nbs`. -/
def links (neighbors : NeighborMap) : List (Cell × Cell) :=
  neighbors.items.flatMap fun item => item.2.map fun nb => (item.1, nb)

theorem mem_links {neighbors : NeighborMap} {c d : Cell} :
    (c, d) ∈ neighbors.links ↔ d ∈ neighbors.of c := by
  unfold links
  rw [List.mem_flatMap]
  constructor
  · rintro ⟨⟨c', nbs⟩, hmem, hcd⟩
    obtain ⟨d', hd', he⟩ := List.mem_map.mp hcd
    obtain ⟨rfl, rfl⟩ := Prod.mk.inj he
    unfold of neighborsOf
    have hget : neighbors.items.lookup c' = some nbs := Dict.get?_eq_some hmem
    rw [hget]
    exact hd'
  · intro hd
    unfold of neighborsOf at hd
    cases h : neighbors.items.lookup c with
    | none =>
      rw [h] at hd
      cases hd
    | some nbs =>
      rw [h] at hd
      exact ⟨(c, nbs), Dict.mem_items_of_get? h, List.mem_map.mpr ⟨d, hd, rfl⟩⟩

end NeighborMap

/-- `_bfs_reachable(neighbors, sources)`. -/
def bfsReachable (neighbors : NeighborMap) (sources : FrozenSet Cell) : Finset Cell :=
  Flood.flood neighbors.of neighbors.area neighbors.mem_area sources.elems

/-! ## Reachability with observations -/

/-- The unions for one observation: its first cell with each of the others. -/
def observationLinks (cells : FrozenSet Cell) : List (Cell × Cell) :=
  match cells.elems with
  | [] => []
  | head :: rest => rest.map fun cell => (head, cell)

/-- The union-find after the seed edges and the observations. -/
def mergeAll (order : SetOrder) (neighbors : NeighborMap) (observations : List ReplayObservation) :
    UnionFind Cell :=
  (UnionFind.new.unionAll neighbors.links).unionAll
    (observations.flatMap fun obs => observationLinks (order.order obs.cells))

/-- The spawn cells put together: the links, and `spawn_rep`. -/
def mergeSpawn (uf : UnionFind Cell) (spawnCells : FrozenSet Cell) (first : Cell) :
    UnionFind Cell × Cell :=
  let found := uf.find first
  (found.1.unionAll (spawnCells.elems.map fun sc => (sc, found.2))).find found.2

/-- `for cell in aset.cells: if uf.find(cell) == spawn_rep: …; break`. -/
def touches (rep : Cell) : UnionFind Cell → List Cell → UnionFind Cell × Bool
  | uf, [] => (uf, false)
  | uf, cell :: cells =>
    let found := uf.find cell
    if found.2 = rep then (found.1, true) else touches rep found.1 cells

/-- `for aset in non_spawn_sets`: how many are in the component of the spawn. -/
def countReachable (order : SetOrder) (rep : Cell) : UnionFind Cell → List AnchorSet → Nat
  | _, [] => 0
  | uf, aset :: sets =>
    let out := touches rep uf (order.order aset.cells).elems
    out.2.toNat + countReachable order rep out.1 sets

/-! ## One map -/

/-- The anchor sets to be reached. -/
def nonSpawnSets (anchorSets : List AnchorSet) : List AnchorSet :=
  anchorSets.filter fun aset => aset.tag ∉ spawnTags

/-- `spawn_cells`. -/
def spawnCellsOf (anchorSets : List AnchorSet) : Finset Cell :=
  unionCells (anchorSets.filter fun aset => aset.tag ∈ spawnTags)

/-- `reachable_count`. There is a spawn cell, so `next(iter(spawn_cells))` finds one. -/
def reachableCount (order : SetOrder) (neighbors : NeighborMap) (anchorSets : List AnchorSet)
    (observations : List ReplayObservation) : Nat :=
  let spawnCells := order.order (spawnCellsOf anchorSets)
  match spawnCells.elems with
  | [] => 0
  | first :: _ =>
    let merged := mergeSpawn (mergeAll order neighbors observations) spawnCells first
    countReachable order merged.2 merged.1 (nonSpawnSets anchorSets)

/-- The rest of `validate_map` when observations are used. -/
def applyObservations (order : SetOrder) (reads : MapReads φ) (graph : CellGraph)
    (anchorSets : List AnchorSet) (result : MapReachability) :
    Except String MapReachability := do
  let replays ← reads.cleanReplays
  let observations ← buildObservations anchorSets reads.sidecar replays
  return { result with
    observationsAvailable := replays.length
    observationsApplied := observations.length
    anchorSetsReachable := reachableCount order graph.neighbors anchorSets observations }

/-- `validate_map` from the anchor sets on. -/
def validateAnchors (order : SetOrder) (reads : MapReads φ) (useObservations : Bool)
    (graph : CellGraph) (anchorSets : List AnchorSet) (result : MapReachability) :
    Except String MapReachability :=
  if anchorSets = [] then
    .ok { result with errors := result.errors ++ ["no_grid_waypoints"] }
  else
    let spawnCells := spawnCellsOf anchorSets
    let sets := nonSpawnSets anchorSets
    let result := { result with
      spawnAnchorCells := spawnCells.card
      anchorSetsTotal := sets.length }
    if spawnCells = ∅ then .ok { result with errors := result.errors ++ ["no_spawn_anchor"] }
    else if sets = [] then .ok result
    else
      let seedReachable := bfsReachable graph.neighbors (order.order spawnCells)
      let seedOnly := sets.countP fun aset =>
        (order.order aset.cells).elems.any fun cell => cell ∈ seedReachable
      let result := { result with anchorSetsReachableSeedOnly := seedOnly }
      if useObservations then applyObservations order reads graph anchorSets result
      else .ok { result with anchorSetsReachable := seedOnly }

/-- The counters of the edges. -/
def edgeCounters (mapId : Int) (graph : CellGraph) : MapReachability :=
  { MapReachability.blank mapId [] with
    totalCells := graph.cellToFamily.items.length
    seedValidEdges := graph.counts.seedValid
    unsupportedEdges := graph.counts.unsupported
    unknownEdges := graph.counts.unknown
    totalEdges := graph.counts.seedValid + graph.counts.unsupported + graph.counts.unknown }

variable [FloatOps φ]

/-- `validate_map(conn, map_id, use_observations=…)`. -/
def validateMap (order : SetOrder) (reads : MapReads φ) (useObservations : Bool) (mapId : Int) :
    Except String MapReachability := do
  let gridRows ← reads.gridBlocks
  if gridRows = [] then
    return MapReachability.blank mapId ["no_grid_placements"]
  else
    let graph := buildCellGraph gridRows
    let waypoints ← reads.waypoints
    let freeWaypoints ← reads.freeWaypoints
    validateAnchors order reads useObservations graph
      (mapAnchorSets graph waypoints freeWaypoints) (edgeCounters mapId graph)

/-! ## A validation set -/

/-- `ValidationReport`. -/
structure ValidationReport where
  perMap : List MapReachability

/-- `maps_passing_reachability`. -/
def ValidationReport.mapsPassingReachability (report : ValidationReport) : Nat :=
  report.perMap.countP fun m => m.passesReachability

/-- The entry of one map: an exception is caught and noted. -/
def validateEntry (order : SetOrder) (reads : MapReads φ) (useObservations : Bool) (mapId : Int) :
    MapReachability :=
  match validateMap order reads useObservations mapId with
  | .ok m => m
  | .error exc => MapReachability.blank mapId ["exception: " ++ exc]

/-- `validate_set(conn, map_ids, use_observations=…)`. -/
def validateSet (order : SetOrder) (db : Int → MapReads φ) (useObservations : Bool)
    (mapIds : List Int) : ValidationReport :=
  ⟨mapIds.map fun mid => validateEntry order (db mid) useObservations mid⟩

end TraxMania.Corridor
