import TraxMania.Corridor.AnchorSets
import TraxMania.Corridor.CellGraph
import TraxMania.Corridor.Ranking

/-
  What the traversability code reads about one map: its grid blocks, its waypoints (free ones are
  snapped to the nearest cell), its clean replays and their breadcrumb sidecars. A read that raises
  is `.error` with the text of the exception.

  The corridors of a map are made of the reads: every interval of the map with the simple paths
  found for it (`enumerate_map`).
-/

namespace TraxMania.Corridor

open TraxMania.Grid Lib

section

/-! ## Free waypoints -/

/-- What snapping does with floats; `lt` is `<`. -/
class FloatOps (φ : Type) extends Add φ, Sub φ, Mul φ, IntCast φ where
  lt : φ → φ → Bool
  inf : φ

/-- A row `(tag, waypoint_order, abs_x, abs_y, abs_z)`. -/
structure FreeWaypoint (φ : Type) where
  tag : String
  waypointOrder : Int
  ax : φ
  ay : φ
  az : φ

variable {φ : Type} [FloatOps φ]

/-- `g * _BLOCK_SIZE + _BLOCK_SIZE / 2` for a block size of `2 * half`. -/
def blockCenter (g half : Int) : φ := (g : φ) * ((2 * half : Int) : φ) + (half : φ)

/-- `dist`: the squared distance to the centre of a cell; blocks are 32 × 8 × 32. -/
def squaredDistance (w : FreeWaypoint φ) (c : Cell) : φ :=
  let dx := w.ax - blockCenter c.x 16
  let dy := w.ay - blockCenter c.y 4
  let dz := w.az - blockCenter c.z 16
  dx * dx + dy * dy + dz * dz

/-- The best distance so far and its cell. -/
structure Best (φ : Type) where
  dist : φ
  cell : Option Cell

/-- `if dist < best_dist: best_dist, best_cell = …`. -/
def Best.closer (best : Best φ) (dist : φ) (cell : Cell) : Best φ :=
  if FloatOps.lt dist best.dist then ⟨dist, some cell⟩ else best

/-- The body of the loop over the cells: `(best_drivable, best_any)`. -/
def snapStep (cellToFamily : Dict Cell String) (w : FreeWaypoint φ) (best : Best φ × Best φ)
    (cell : Cell) : Best φ × Best φ :=
  let dist := squaredDistance w cell
  let family := (cellToFamily.get? cell).getD ""
  (if classifyFamily family = .drivable then best.1.closer dist cell else best.1,
   best.2.closer dist cell)

/-- `chosen`. -/
def snapCell (gridCells : List Cell) (cellToFamily : Dict Cell String) (w : FreeWaypoint φ) :
    Option Cell :=
  let none' : Best φ := ⟨FloatOps.inf, none⟩
  let best := gridCells.foldl (snapStep cellToFamily w) (none', none')
  best.1.cell.or best.2.cell

/-- `_snap_free_waypoints_to_grid(free_waypoints, grid_cells, cell_to_family)`. -/
def snapFreeWaypointsToGrid (freeWaypoints : List (FreeWaypoint φ)) (gridCells : List Cell)
    (cellToFamily : Dict Cell String) : List WaypointRow :=
  freeWaypoints.filterMap fun w =>
    (snapCell gridCells cellToFamily w).map fun c =>
      ⟨some w.tag, w.waypointOrder, some c.x, some c.y, some c.z⟩

/-- The anchor sets of a map: its waypoint rows, and the free ones snapped to its cells. -/
def mapAnchorSets (graph : CellGraph) (waypoints : List WaypointRow)
    (freeWaypoints : List (FreeWaypoint φ)) : List AnchorSet :=
  buildAnchorSets (waypoints ++
    snapFreeWaypointsToGrid freeWaypoints graph.cellToFamily.keys graph.cellToFamily)

/-! ## Replays -/

/-- A breadcrumb sidecar, as `_load_breadcrumbs_cp_count` finds it. -/
inductive Sidecar
  /-- `OSError`. -/
  | unreadable
  /-- `UnicodeDecodeError`: not UTF-8. -/
  | undecodable (message : String)
  /-- `JSONDecodeError`. -/
  | malformed
  /-- JSON, but `payload.get` does not exist. -/
  | notAnObject (message : String)
  /-- An object; the length of `checkpoint_times_ms` when that is a list. -/
  | object (checkpointTimesMs : Option Nat)

/-- `_load_breadcrumbs_cp_count(path)`: only `OSError` and `JSONDecodeError` are caught. -/
def loadBreadcrumbsCpCount : Sidecar → Except String (Option Nat)
  | .unreadable => .ok none
  | .undecodable message => .error message
  | .malformed => .ok none
  | .notAnObject message => .error message
  | .object checkpointTimesMs => .ok checkpointTimesMs

/-- The union of the cells of some anchor sets. -/
def unionCells (anchorSets : List AnchorSet) : Finset Cell :=
  anchorSets.foldl (fun cells aset => cells ∪ aset.cells) ∅

theorem mem_unionCells {anchorSets : List AnchorSet} {c : Cell} :
    c ∈ unionCells anchorSets ↔ ∃ aset ∈ anchorSets, c ∈ aset.cells := by
  have hfold : ∀ cells : Finset Cell,
      c ∈ anchorSets.foldl (fun cells aset => cells ∪ aset.cells) cells ↔
        c ∈ cells ∨ ∃ aset ∈ anchorSets, c ∈ aset.cells := by
    induction anchorSets with
    | nil => simp
    | cons aset rest ih =>
      intro cells
      rw [List.foldl_cons, ih, Finset.mem_union]
      simp only [List.mem_cons, exists_eq_or_imp]
      tauto
  unfold unionCells
  rw [hfold]
  simp

/-- `kind` of an observation. -/
inductive ObservationKind
  | spawnGoalOnly
  | linkedOrdered
  | checkpointMatched
deriving DecidableEq, Repr

/-- `ReplayObservation`. -/
structure ReplayObservation where
  replayId : Int
  kind : ObservationKind
  cells : Finset Cell

/-- The cells a replay with `cp_count` timed crossings asserts to be connected. -/
def assertedCells (anchorSets : List AnchorSet) (cpCount : Option Nat) :
    Finset Cell × ObservationKind :=
  let linkedSets := withTag "LinkedCheckpoint" anchorSets
  let checkpointSets := withTag "Checkpoint" anchorSets
  let ends := unionCells (anchorSets.filter fun a => a.tag ∈ spawnTags) ∪
    unionCells (anchorSets.filter fun a => a.tag ∈ ["Goal", "StartFinish"])
  let linkedAnchorCount := linkedSets.length
  let plainCpAnchorCount := (unionCells checkpointSets).card
  match cpCount with
  | none => (ends, .spawnGoalOnly)
  | some n =>
    if linkedSets ≠ [] ∧ checkpointSets ≠ [] then (ends, .spawnGoalOnly)
    else if linkedSets ≠ [] ∧ (n = linkedAnchorCount ∨ n = linkedAnchorCount + 1) then
      (ends ∪ unionCells linkedSets, .linkedOrdered)
    else if checkpointSets ≠ [] ∧ (n = plainCpAnchorCount ∨ n = plainCpAnchorCount + 1) then
      (ends ∪ unionCells checkpointSets, .checkpointMatched)
    else (ends, .spawnGoalOnly)

/-- The body of the loop over the replays; nothing useful to assert gives `none`. -/
def observe (anchorSets : List AnchorSet) (sidecar : String → Sidecar) (replay : Int × String) :
    Except String (Option ReplayObservation) :=
  (loadBreadcrumbsCpCount (sidecar replay.2)).map fun cpCount =>
    let asserted := assertedCells anchorSets cpCount
    if asserted.1.card < 2 then none else some ⟨replay.1, asserted.2, asserted.1⟩

/-- `_build_observations(anchor_sets, replays)`. -/
def buildObservations (anchorSets : List AnchorSet) (sidecar : String → Sidecar) :
    List (Int × String) → Except String (List ReplayObservation)
  | [] => .ok []
  | replay :: replays =>
    match observe anchorSets sidecar replay with
    | .error message => .error message
    | .ok observation =>
      (buildObservations anchorSets sidecar replays).map (observation.toList ++ ·)

/-- No sidecar raises. -/
def Loadable (sidecar : String → Sidecar) (replays : List (Int × String)) : Prop :=
  ∀ replay ∈ replays, (loadBreadcrumbsCpCount (sidecar replay.2)).toBool

theorem buildObservations_ok {anchorSets : List AnchorSet} {sidecar : String → Sidecar}
    {replays : List (Int × String)} :
    (∃ observations, buildObservations anchorSets sidecar replays = .ok observations) ↔
      Loadable sidecar replays := by
  unfold Loadable
  induction replays with
  | nil => simp [buildObservations]
  | cons replay replays ih =>
    rw [List.forall_mem_cons, ← ih, buildObservations, observe]
    cases loadBreadcrumbsCpCount (sidecar replay.2) with
    | error message => simp [Except.map, Except.toBool]
    | ok cpCount =>
      cases buildObservations anchorSets sidecar replays with
      | error message => simp [Except.map, Except.toBool]
      | ok observations => simp [Except.map, Except.toBool]

/-! ## All reads of a map -/

/-- What the queries about a map answer. -/
structure MapReads (φ : Type) where
  /-- `_fetch_map_grid_blocks`. -/
  gridBlocks : Except String (List (Cell × String))
  /-- `_fetch_map_waypoints`. -/
  waypoints : Except String (List WaypointRow)
  /-- `_fetch_free_map_waypoints`. -/
  freeWaypoints : Except String (List (FreeWaypoint φ))
  /-- `_fetch_clean_replays`. -/
  cleanReplays : Except String (List (Int × String))
  /-- The file at a breadcrumbs path. -/
  sidecar : String → Sidecar

/-- The order in which a run iterates its sets of cells. -/
structure SetOrder where
  order : Finset Cell → FrozenSet Cell
  mem_order : ∀ s c, c ∈ order s ↔ c ∈ s

/-- The cells of a set in their order. -/
def sortedCells (s : Finset Cell) : List Cell :=
  Quot.liftOn s.val (SortBy.sortBy id) fun l l' h =>
    List.Perm.eq_of_pairwise (fun _ _ _ _ hab hba => le_antisymm hab hba)
      (SortBy.sortBy_pairwise id l) (SortBy.sortBy_pairwise id l')
      ((SortBy.sortBy_perm id l).trans (h.trans (SortBy.sortBy_perm id l').symm))

theorem coe_sortedCells (s : Finset Cell) : (sortedCells s : Multiset Cell) = s.val := by
  obtain ⟨l, hl⟩ := s
  induction l using Quot.inductionOn with
  | h l => exact Quot.sound (SortBy.sortBy_perm id l)

/-- A run that iterates its sets in the order of the cells. -/
def sortedOrder : SetOrder where
  order s := ⟨sortedCells s, by
    have h := s.nodup
    rw [← coe_sortedCells s] at h
    exact h⟩
  mem_order s c := by
    show c ∈ (sortedCells s : Multiset Cell) ↔ c ∈ s.val
    rw [coe_sortedCells]

/-- Coordinates that are whole numbers, for maps without a free waypoint. -/
instance : FloatOps Int where
  lt a b := decide (a < b)
  inf := 0

/-- A map without placements. -/
def emptyReads : MapReads Int where
  gridBlocks := .ok []
  waypoints := .ok []
  freeWaypoints := .ok []
  cleanReplays := .ok []
  sidecar := fun _ => .unreadable

end

/-! ## The intervals of a map -/

/-- `IntervalEnumeration`: the interval, and its paths as `keep_paths` keeps them. -/
structure IntervalEnumeration where
  mapId : Int
  srcTag : String
  srcOrder : Int
  dstTag : String
  dstOrder : Int
  paths : List (List Cell)

variable {φ : Type}

/-- The observations of a map's clean replays, as sets in the order of a run. -/
def observationSets (order : SetOrder) (reads : MapReads φ) (anchorSets : List AnchorSet) :
    Except String (List (FrozenSet Cell)) := do
  let replays ← reads.cleanReplays
  let observations ← buildObservations anchorSets reads.sidecar replays
  return observations.map fun obs => order.order obs.cells

/-- The body of `for plan in plans`. -/
def enumeratePlan (order : SetOrder) (combined : Cell → List Cell) (depthCap : Int) (mapId : Int)
    (plan : IntervalPlan) : IntervalEnumeration where
  mapId := mapId
  srcTag := plan.srcTag
  srcOrder := plan.srcOrder
  dstTag := plan.dstTag
  dstOrder := plan.dstOrder
  paths := enumerateSimplePaths combined (order.order plan.sources) (order.order plan.targets)
    depthCap p95PathCountCap

variable [FloatOps φ]

/-- The graph of a map and its anchor sets. -/
def mapGraph (reads : MapReads φ) (gridRows : List (Cell × String)) :
    Except String (CellGraph × List AnchorSet) := do
  let graph := buildCellGraph gridRows
  let waypoints ← reads.waypoints
  let freeWaypoints ← reads.freeWaypoints
  return (graph, mapAnchorSets graph waypoints freeWaypoints)

/-- `enumerate_map(conn, map_id, keep_paths=True)`. -/
def enumerateMap (order : SetOrder) (reads : MapReads φ) (mapId : Int) :
    Except String (List IntervalEnumeration) := do
  let gridRows ← reads.gridBlocks
  if gridRows = [] then return []
  else
    let (graph, anchorSets) ← mapGraph reads gridRows
    -- without anchor sets there is no plan either
    let plans := planIntervals anchorSets
    if plans.isEmpty then return []
    else
      let sets ← observationSets order reads anchorSets
      let combined := (buildEnumerationGraph graph.neighbors.of sets).1
      return plans.map (enumeratePlan order combined defaultDepthCap mapId)

end TraxMania.Corridor
