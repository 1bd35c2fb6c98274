import TraxMania.Corridor.Reachability

/-
  What a passing map of the report says. A map that was examined passes only when every anchor set
  is connected to a spawn cell. A map that could not be examined passes as well: all its counters
  stay at 0, and 0 of 0 anchor sets counts as everything reached.
-/

namespace TraxMania.Corridor

open TraxMania.Grid Lib Relation

variable {φ : Type}

/-! ## Connected cells -/

/-- A seed edge, or two cells that one replay asserts. -/
def Link (neighbors : NeighborMap) (observations : List ReplayObservation) (c d : Cell) : Prop :=
  d ∈ neighbors.of c ∨ ∃ obs ∈ observations, c ∈ obs.cells ∧ d ∈ obs.cells

def Connected (neighbors : NeighborMap) (observations : List ReplayObservation) :
    Cell → Cell → Prop := EqvGen (Link neighbors observations)

/-- Some cell of the anchor set is connected to a spawn cell. -/
def SpawnConnected (neighbors : NeighborMap) (observations : List ReplayObservation)
    (spawnCells : Finset Cell) (aset : AnchorSet) : Prop :=
  ∃ cell ∈ aset.cells, ∃ s ∈ spawnCells, Connected neighbors observations cell s

/-- What breadth-first search reaches is connected to a source. -/
theorem connected_of_mem_bfs {neighbors : NeighborMap} {sources : FrozenSet Cell} {c : Cell}
    (observations : List ReplayObservation) (h : c ∈ bfsReachable neighbors sources) :
    ∃ s ∈ sources, Connected neighbors observations c s := by
  obtain ⟨s, hs, hpath⟩ := (Flood.mem_flood neighbors.mem_area).mp h
  refine ⟨s, hs, ?_⟩
  clear h
  induction hpath with
  | refl => exact EqvGen.refl s
  | @tail b d _ hbd ih =>
    have hlink : Connected neighbors observations b d := EqvGen.rel _ _ (Or.inl hbd)
    exact (hlink.symm _ _).trans _ _ _ ih

/-! ## The union-find holds the connected parts -/

/-- What the unions of the source join. -/
def Merged (order : SetOrder) (neighbors : NeighborMap) (observations : List ReplayObservation)
    (c d : Cell) : Prop :=
  (c, d) ∈ neighbors.links ∨
    (c, d) ∈ observations.flatMap fun obs => observationLinks (order.order obs.cells)

theorem joins_mergeAll (order : SetOrder) (neighbors : NeighborMap)
    (observations : List ReplayObservation) :
    (mergeAll order neighbors observations).Joins (Merged order neighbors observations) := by
  have h := (UnionFind.joins_new.unionAll neighbors.links).unionAll
    (observations.flatMap fun obs => observationLinks (order.order obs.cells))
  have hr : (fun c d : Cell => (False ∨ (c, d) ∈ neighbors.links) ∨
      (c, d) ∈ observations.flatMap fun obs => observationLinks (order.order obs.cells)) =
      Merged order neighbors observations := by
    funext c d
    rw [false_or]
    rfl
  rw [hr] at h
  exact h

theorem mem_of_mem_observationLinks {cells : FrozenSet Cell} {c d : Cell}
    (h : (c, d) ∈ observationLinks cells) : c ∈ cells ∧ d ∈ cells := by
  unfold observationLinks at h
  split at h
  · cases h
  · next head rest he =>
    obtain ⟨d', hd', hcd⟩ := List.mem_map.mp h
    obtain ⟨rfl, rfl⟩ := Prod.mk.inj hcd
    rw [← FrozenSet.mem_elems, ← FrozenSet.mem_elems, he]
    exact ⟨List.mem_cons_self, List.mem_cons_of_mem _ hd'⟩

theorem connected_of_merged {order : SetOrder} {neighbors : NeighborMap}
    {observations : List ReplayObservation} {c d : Cell}
    (h : EqvGen (Merged order neighbors observations) c d) :
    Connected neighbors observations c d := by
  refine EqvGen.mono ?_ _ _ h
  intro c d hcd
  rcases hcd with hcd | hcd
  · exact Or.inl (NeighborMap.mem_links.mp hcd)
  · obtain ⟨obs, hobs, hmem⟩ := List.mem_flatMap.mp hcd
    obtain ⟨hc, hd⟩ := mem_of_mem_observationLinks hmem
    exact Or.inr ⟨obs, hobs, (order.mem_order _ _).mp hc, (order.mem_order _ _).mp hd⟩

/-- After the spawn cells are put together, the component of `spawn_rep` are the cells joined to
    some spawn cell before. -/
theorem root_mergeSpawn {uf : UnionFind Cell} {r : Cell → Cell → Prop} (h : uf.Joins r)
    (spawnCells : FrozenSet Cell) {first : Cell} (hfirst : first ∈ spawnCells) (c : Cell) :
    (mergeSpawn uf spawnCells first).1.root c = (mergeSpawn uf spawnCells first).2 ↔
      ∃ s ∈ spawnCells, EqvGen r c s := by
  have hfound := uf.find_spec first
  have hjoins := (h.find first).unionAll (spawnCells.elems.map fun sc => (sc, (uf.find first).2))
  have hrep := ((uf.find first).1.unionAll
    (spawnCells.elems.map fun sc => (sc, (uf.find first).2))).find_spec (uf.find first).2
  have hroot : EqvGen r (uf.find first).2 first := by
    refine (h _ _).mp ?_
    unfold UnionFind.Same
    rw [hfound.1, UnionFind.root_root]
  have hiff := hjoins c (uf.find first).2
  unfold UnionFind.Same at hiff
  unfold mergeSpawn
  rw [hrep.1, hrep.2.1, hiff]
  -- a cell joined to a spawn cell stays one, on both sides of every link
  have hkeep : ∀ x y, EqvGen (fun x y => r x y ∨
      (x, y) ∈ spawnCells.elems.map fun sc => (sc, (uf.find first).2)) x y →
      ((∃ s ∈ spawnCells, EqvGen r x s) ↔ ∃ s ∈ spawnCells, EqvGen r y s) := by
    intro x y hxy
    refine UnionFind.eqvGen_keeps (P := fun x => ∃ s ∈ spawnCells, EqvGen r x s)
      (fun x y hr => ?_) hxy
    rcases hr with hr | hr
    · have hxy : EqvGen r x y := EqvGen.rel _ _ hr
      constructor
      · exact fun ⟨s, hs, hx⟩ => ⟨s, hs, (hxy.symm _ _).trans _ _ _ hx⟩
      · exact fun ⟨s, hs, hy⟩ => ⟨s, hs, hxy.trans _ _ _ hy⟩
    · obtain ⟨sc, hsc, hpair⟩ := List.mem_map.mp hr
      obtain ⟨rfl, rfl⟩ := Prod.mk.inj hpair
      exact ⟨fun _ => ⟨first, hfirst, hroot⟩, fun _ => ⟨sc, hsc, EqvGen.refl sc⟩⟩
  constructor
  · intro hc
    exact (hkeep _ _ hc).mpr ⟨first, hfirst, hroot⟩
  · rintro ⟨s, hs, hcs⟩
    refine EqvGen.trans _ s _ (EqvGen.mono (fun _ _ => Or.inl) _ _ hcs) (EqvGen.rel _ _ ?_)
    exact Or.inr (List.mem_map.mpr ⟨s, hs, rfl⟩)

/-! ## The counts -/

/-- The inner loop finds a cell of the component, and changes no root. -/
theorem touches_spec (rep : Cell) (cells : List Cell) (uf : UnionFind Cell) :
    ((touches rep uf cells).2 = true ↔ ∃ cell ∈ cells, uf.root cell = rep) ∧
      (touches rep uf cells).1.root = uf.root := by
  induction cells generalizing uf with
  | nil => exact ⟨by simp [touches], rfl⟩
  | cons cell cells ih =>
    obtain ⟨hfound, hroot, -⟩ := uf.find_spec cell
    obtain ⟨hih, hihroot⟩ := ih (uf.find cell).1
    rw [hroot] at hih hihroot
    unfold touches
    by_cases h : uf.root cell = rep
    · simp only [hfound, h, if_true]
      exact ⟨by simp [h], hroot⟩
    · simp only [hfound, h, if_false]
      refine ⟨?_, hihroot⟩
      rw [hih]
      simp [h]

/-- `reachable_count` reaches the number of sets when every set has a cell in the component. -/
theorem countReachable_spec (order : SetOrder) (rep : Cell) (sets : List AnchorSet)
    (uf : UnionFind Cell) :
    countReachable order rep uf sets ≤ sets.length ∧
      (sets.length ≤ countReachable order rep uf sets →
        ∀ aset ∈ sets, ∃ cell ∈ aset.cells, uf.root cell = rep) := by
  induction sets generalizing uf with
  | nil => exact ⟨le_refl 0, fun _ _ h => by cases h⟩
  | cons aset sets ih =>
    obtain ⟨htouch, hroot⟩ := touches_spec rep (order.order aset.cells).elems uf
    obtain ⟨hle, hall⟩ := ih (touches rep uf (order.order aset.cells).elems).1
    unfold countReachable
    simp only [List.length_cons]
    cases hout : (touches rep uf (order.order aset.cells).elems).2 with
    | false =>
      simp only [Bool.toNat_false]
      exact ⟨by omega, fun h => by omega⟩
    | true =>
      simp only [Bool.toNat_true]
      refine ⟨by omega, fun h => ?_⟩
      have hrest := hall (by omega)
      rw [hroot] at hrest
      refine List.forall_mem_cons.mpr ⟨?_, hrest⟩
      obtain ⟨cell, hcell, hrep⟩ := htouch.mp hout
      exact ⟨cell, (order.mem_order _ _).mp hcell, hrep⟩

/-! ## One map -/

/-- The observations that count: none when they are not used. -/
def Observed (reads : MapReads φ) (useObservations : Bool) (anchorSets : List AnchorSet)
    (observations : List ReplayObservation) : Prop :=
  if useObservations then
    ∃ replays, reads.cleanReplays = .ok replays ∧
      buildObservations anchorSets reads.sidecar replays = .ok observations
  else observations = []

/-- Every non-spawn anchor set is connected to a spawn cell. -/
def AllConnected (reads : MapReads φ) (useObservations : Bool) (graph : CellGraph)
    (anchorSets : List AnchorSet) : Prop :=
  ∀ aset ∈ nonSpawnSets anchorSets, ∃ observations,
    Observed reads useObservations anchorSets observations ∧
    SpawnConnected graph.neighbors observations (spawnCellsOf anchorSets) aset

/-- When observations are used, the replays and their sidecars can be read. They are read only
    when there is a spawn and something else to reach. -/
def ObservationsReadable (reads : MapReads φ) (useObservations : Bool)
    (anchorSets : List AnchorSet) : Prop :=
  useObservations = true → spawnCellsOf anchorSets ≠ ∅ → nonSpawnSets anchorSets ≠ [] →
    ∃ replays, reads.cleanReplays = .ok replays ∧ Loadable reads.sidecar replays

/-- Where no cell is a spawn cell, some set is not a spawn set: the others have no cell. -/
theorem nonSpawnSets_ne_nil {anchorSets : List AnchorSet} (hsets : anchorSets ≠ [])
    (hcells : ∀ aset ∈ anchorSets, aset.cells ≠ ∅) (hspawn : spawnCellsOf anchorSets = ∅) :
    nonSpawnSets anchorSets ≠ [] := by
  intro hnil
  obtain ⟨aset, haset⟩ := List.exists_mem_of_ne_nil _ hsets
  have htag : aset.tag ∈ spawnTags := by
    have h := List.filter_eq_nil_iff.mp hnil aset haset
    simpa using h
  obtain ⟨c, hc⟩ := Finset.nonempty_iff_ne_empty.mpr (hcells aset haset)
  have hmem : c ∈ spawnCellsOf anchorSets :=
    mem_unionCells.mpr ⟨aset, List.mem_filter.mpr ⟨haset, decide_eq_true htag⟩, hc⟩
  rw [hspawn] at hmem
  exact Finset.notMem_empty c hmem

/-- The observations are applied when the replays can be read. -/
theorem applyObservations_isOk {order : SetOrder} {reads : MapReads φ} {graph : CellGraph}
    {anchorSets : List AnchorSet} {result : MapReachability} :
    (∃ m, applyObservations order reads graph anchorSets result = .ok m) ↔
      ∃ replays, reads.cleanReplays = .ok replays ∧ Loadable reads.sidecar replays := by
  unfold applyObservations
  cases reads.cleanReplays with
  | error message => simp [bind, Except.bind]
  | ok replays =>
    have hload : (∃ observations, buildObservations anchorSets reads.sidecar replays =
        .ok observations) ↔ Loadable reads.sidecar replays := buildObservations_ok
    cases hobs : buildObservations anchorSets reads.sidecar replays with
    | error message =>
      rw [hobs] at hload
      simp [bind, Except.bind, hobs, ← hload]
    | ok observations =>
      rw [hobs] at hload
      simp [bind, Except.bind, hobs, ← hload, pure, Except.pure]

theorem applyObservations_eq {order : SetOrder} {reads : MapReads φ} {graph : CellGraph}
    {anchorSets : List AnchorSet} {result m : MapReachability}
    (h : applyObservations order reads graph anchorSets result = .ok m) :
    ∃ observations, Observed reads true anchorSets observations ∧ m.errors = result.errors ∧
      m.anchorSetsTotal = result.anchorSetsTotal ∧
      m.anchorSetsReachable = reachableCount order graph.neighbors anchorSets observations := by
  obtain ⟨replays, hreplays, hload⟩ := applyObservations_isOk.mp ⟨m, h⟩
  obtain ⟨observations, hobs⟩ : ∃ observations,
      buildObservations anchorSets reads.sidecar replays = .ok observations :=
    buildObservations_ok.mpr hload
  refine ⟨observations, ⟨replays, hreplays, hobs⟩, ?_⟩
  unfold applyObservations at h
  rw [hreplays] at h
  change (buildObservations anchorSets reads.sidecar replays >>= _) = _ at h
  rw [hobs] at h
  obtain rfl := Except.ok.inj h
  exact ⟨rfl, rfl, rfl⟩

/-- All sets are counted only when all are connected to the spawn. -/
theorem reachableCount_spec {order : SetOrder} {neighbors : NeighborMap}
    {anchorSets : List AnchorSet} {observations : List ReplayObservation}
    (hspawn : spawnCellsOf anchorSets ≠ ∅)
    (hall : (nonSpawnSets anchorSets).length ≤
      reachableCount order neighbors anchorSets observations) :
    ∀ aset ∈ nonSpawnSets anchorSets,
      SpawnConnected neighbors observations (spawnCellsOf anchorSets) aset := by
  unfold reachableCount at hall
  simp only at hall
  split at hall
  · next hnil =>
    obtain ⟨c, hc⟩ := Finset.nonempty_iff_ne_empty.mpr hspawn
    have hmem := (order.mem_order _ c).mpr hc
    rw [← FrozenSet.mem_elems, hnil] at hmem
    cases hmem
  · next first rest hfirst =>
    intro aset haset
    obtain ⟨cell, hcell, hrep⟩ := (countReachable_spec order _ _ _).2 hall aset haset
    have hmem : first ∈ order.order (spawnCellsOf anchorSets) := by
      rw [← FrozenSet.mem_elems, hfirst]
      exact List.mem_cons_self
    obtain ⟨s, hs, hjoin⟩ :=
      (root_mergeSpawn (joins_mergeAll order neighbors observations) _ hmem cell).mp hrep
    exact ⟨cell, hcell, s, (order.mem_order _ _).mp hs, connected_of_merged hjoin⟩

/-- A map with anchor sets is examined when its replays can be read. -/
theorem validateAnchors_isOk (order : SetOrder) {reads : MapReads φ} {useObservations : Bool}
    (graph : CellGraph) {anchorSets : List AnchorSet} (result : MapReachability)
    (hsets : anchorSets ≠ []) :
    (∃ m, validateAnchors order reads useObservations graph anchorSets result = .ok m) ↔
      ObservationsReadable reads useObservations anchorSets := by
  unfold validateAnchors ObservationsReadable
  rw [if_neg hsets]
  by_cases hspawn : spawnCellsOf anchorSets = ∅
  · simp [hspawn]
  · by_cases hnon : nonSpawnSets anchorSets = []
    · simp [hspawn, hnon]
    · simp only [hspawn, hnon, if_false]
      cases useObservations with
      | false => simp
      | true => simp [applyObservations_isOk, hspawn, hnon]

/-- A map that was examined passes only when it has no error and all its sets are connected. -/
theorem validateAnchors_passes {order : SetOrder} {reads : MapReads φ} {useObservations : Bool}
    {graph : CellGraph} {anchorSets : List AnchorSet} {result m : MapReachability}
    (hsets : anchorSets ≠ []) (hcells : ∀ aset ∈ anchorSets, aset.cells ≠ ∅)
    (herrors : result.errors = []) (hzero : result.anchorSetsReachable = 0)
    (h : validateAnchors order reads useObservations graph anchorSets result = .ok m)
    (hpass : m.passesReachability) :
    m.errors = [] ∧ AllConnected reads useObservations graph anchorSets := by
  rw [MapReachability.passes_iff] at hpass
  unfold validateAnchors at h
  rw [if_neg hsets] at h
  simp only at h
  by_cases hspawn : spawnCellsOf anchorSets = ∅
  · -- without a spawn, every set is to be reached and none is
    rw [if_pos hspawn] at h
    obtain rfl := Except.ok.inj h
    simp only [hzero, Nat.le_zero, List.length_eq_zero_iff] at hpass
    exact absurd hpass (nonSpawnSets_ne_nil hsets hcells hspawn)
  · rw [if_neg hspawn] at h
    by_cases hnon : nonSpawnSets anchorSets = []
    · rw [if_pos hnon] at h
      obtain rfl := Except.ok.inj h
      refine ⟨herrors, fun aset haset => ?_⟩
      rw [hnon] at haset
      cases haset
    · rw [if_neg hnon] at h
      cases useObservations with
      | false =>
        simp only [Bool.false_eq_true, if_false] at h
        obtain rfl := Except.ok.inj h
        refine ⟨herrors, fun aset haset => ⟨[], rfl, ?_⟩⟩
        have hevery := List.countP_eq_length.mp (le_antisymm List.countP_le_length hpass) aset haset
        obtain ⟨cell, hcell, hreach⟩ := List.any_eq_true.mp hevery
        obtain ⟨s, hs, hconn⟩ := connected_of_mem_bfs [] (of_decide_eq_true hreach)
        exact ⟨cell, (order.mem_order _ _).mp hcell, s, (order.mem_order _ _).mp hs, hconn⟩
      | true =>
        simp only [if_true] at h
        obtain ⟨observations, hobs, herr, htotal, hreach⟩ := applyObservations_eq h
        rw [htotal, hreach] at hpass
        refine ⟨herr.trans herrors, fun aset haset => ⟨observations, hobs, ?_⟩⟩
        exact reachableCount_spec hspawn hpass aset haset

/-! ## The whole set -/

variable [FloatOps φ]

/-- Every anchor set has a cell. -/
theorem cells_ne_empty (rows : List WaypointRow) :
    ∀ aset ∈ buildAnchorSets rows, aset.cells ≠ ∅ := by
  have hfold : ∀ d : Dict (String × Int) (Finset Cell), (∀ kv ∈ d.items, kv.2 ≠ ∅) →
      ∀ kv ∈ (rows.foldl addRow d).items, kv.2 ≠ ∅ := by
    induction rows with
    | nil => exact fun _ hd => hd
    | cons r rows ih =>
      intro d hd
      refine ih _ ?_
      unfold addRow
      split
      · exact Dict.forall_upsert (P := fun _ cells => cells ≠ ∅) hd
          fun _ _ => Finset.insert_ne_empty _ _
      · exact hd
  intro aset haset
  obtain ⟨kv, hkv, rfl⟩ := List.mem_map.mp haset
  rw [SortBy.mem_sortBy] at hkv
  exact hfold Dict.empty (by simp [Dict.empty]) kv hkv

/-- The examination of a map is not cut short: it has placements and waypoints, and no read
    raises. -/
def Readable (reads : MapReads φ) (useObservations : Bool) : Prop :=
  ∃ gridRows waypoints freeWaypoints,
    reads.gridBlocks = .ok gridRows ∧ gridRows ≠ [] ∧
    reads.waypoints = .ok waypoints ∧ reads.freeWaypoints = .ok freeWaypoints ∧
    mapAnchorSets (buildCellGraph gridRows) waypoints freeWaypoints ≠ [] ∧
    ObservationsReadable reads useObservations
      (mapAnchorSets (buildCellGraph gridRows) waypoints freeWaypoints)

/-- The map was read, and every non-spawn anchor set is connected to a spawn cell. -/
def Verified (reads : MapReads φ) (useObservations : Bool) : Prop :=
  ∃ gridRows waypoints freeWaypoints,
    reads.gridBlocks = .ok gridRows ∧ reads.waypoints = .ok waypoints ∧
    reads.freeWaypoints = .ok freeWaypoints ∧
    AllConnected reads useObservations (buildCellGraph gridRows)
      (mapAnchorSets (buildCellGraph gridRows) waypoints freeWaypoints)

theorem blank_passes (mapId : Int) (errors : List String) :
    (MapReachability.blank mapId errors).passesReachability := by
  rw [MapReachability.passes_iff]
  exact le_refl 0

/-- With placements the examination goes on to the anchors. -/
theorem validateMap_of_rows {order : SetOrder} {reads : MapReads φ} {useObservations : Bool}
    {gridRows : List (Cell × String)} (hgrid : reads.gridBlocks = .ok gridRows)
    (hrows : gridRows ≠ []) (mapId : Int) :
    validateMap order reads useObservations mapId = (do
      let waypoints ← reads.waypoints
      let freeWaypoints ← reads.freeWaypoints
      validateAnchors order reads useObservations (buildCellGraph gridRows)
        (mapAnchorSets (buildCellGraph gridRows) waypoints freeWaypoints)
        (edgeCounters mapId (buildCellGraph gridRows))) := by
  unfold validateMap
  rw [hgrid]
  show (if gridRows = [] then _ else _) = _
  rw [if_neg hrows]

theorem entry_of_ok {order : SetOrder} {reads : MapReads φ} {useObservations : Bool} {mapId : Int}
    {m : MapReachability} (h : validateMap order reads useObservations mapId = .ok m) :
    validateEntry order reads useObservations mapId = m := by
  unfold validateEntry
  rw [h]

/-- An examination that raises counts as a pass, with the exception as its error. -/
theorem entry_of_error {order : SetOrder} {reads : MapReads φ} {useObservations : Bool}
    {mapId : Int} {message : String}
    (h : validateMap order reads useObservations mapId = .error message) :
    (validateEntry order reads useObservations mapId).passesReachability ∧
      (validateEntry order reads useObservations mapId).errors ≠ [] := by
  unfold validateEntry
  rw [h]
  exact ⟨blank_passes _ _, List.cons_ne_nil _ _⟩

/-- A readable map passes only when it is verified. -/
theorem entry_of_readable {order : SetOrder} {reads : MapReads φ} {useObservations : Bool}
    (h : Readable reads useObservations) (mapId : Int)
    (hpass : (validateEntry order reads useObservations mapId).passesReachability) :
    (validateEntry order reads useObservations mapId).errors = [] ∧
      Verified reads useObservations := by
  obtain ⟨gridRows, waypoints, freeWaypoints, hgrid, hrows, hway, hfree, hsets, hobs⟩ := h
  obtain ⟨m, hm⟩ := (validateAnchors_isOk order (buildCellGraph gridRows)
    (edgeCounters mapId (buildCellGraph gridRows)) hsets).mpr hobs
  have hmap : validateMap order reads useObservations mapId = .ok m := by
    rw [validateMap_of_rows hgrid hrows, hway, hfree]
    exact hm
  rw [entry_of_ok hmap] at hpass ⊢
  have hall := validateAnchors_passes hsets (cells_ne_empty _) rfl rfl hm hpass
  exact ⟨hall.1, gridRows, waypoints, freeWaypoints, hgrid, hway, hfree, hall.2⟩

/-- A map that is not readable passes, with an error. -/
theorem entry_of_not_readable (order : SetOrder) {reads : MapReads φ} {useObservations : Bool}
    (h : ¬ Readable reads useObservations) (mapId : Int) :
    (validateEntry order reads useObservations mapId).passesReachability ∧
      (validateEntry order reads useObservations mapId).errors ≠ [] := by
  cases hgrid : reads.gridBlocks with
  | error message =>
    have hmap : validateMap order reads useObservations mapId = .error message := by
      unfold validateMap
      rw [hgrid]
      rfl
    exact entry_of_error hmap
  | ok gridRows =>
    by_cases hrows : gridRows = []
    · have hmap : validateMap order reads useObservations mapId =
          .ok (MapReachability.blank mapId ["no_grid_placements"]) := by
        unfold validateMap
        rw [hgrid, hrows]
        rfl
      rw [entry_of_ok hmap]
      exact ⟨blank_passes _ _, List.cons_ne_nil _ _⟩
    · have hbody : validateMap order reads useObservations mapId = _ :=
        validateMap_of_rows hgrid hrows mapId
      cases hway : reads.waypoints with
      | error message => exact entry_of_error (by rw [hbody, hway]; rfl)
      | ok waypoints =>
        cases hfree : reads.freeWaypoints with
        | error message => exact entry_of_error (by rw [hbody, hway, hfree]; rfl)
        | ok freeWaypoints =>
          rw [hway, hfree] at hbody
          by_cases hsets : mapAnchorSets (buildCellGraph gridRows) waypoints freeWaypoints = []
          · have hmap : validateMap order reads useObservations mapId =
                .ok { edgeCounters mapId (buildCellGraph gridRows) with
                  errors := ["no_grid_waypoints"] } := by
              refine hbody.trans ?_
              show validateAnchors _ _ _ _ _ _ = _
              rw [validateAnchors, if_pos hsets]
              rfl
            rw [entry_of_ok hmap]
            exact ⟨(MapReachability.passes_iff _).mpr (le_refl 0), List.cons_ne_nil _ _⟩
          · cases hv : validateMap order reads useObservations mapId with
            | error message => exact entry_of_error hv
            | ok m =>
              have hok := (validateAnchors_isOk order _ (edgeCounters mapId _) hsets).mp
                ⟨m, hbody.symm.trans hv⟩
              exact absurd ⟨gridRows, waypoints, freeWaypoints, hgrid, hrows, hway, hfree, hsets,
                hok⟩ h

/-- The claim of the commit bar about a report: a map that counts as passing was examined, and
    all its anchor sets are connected to a spawn. -/
def BarSound (order : SetOrder) (db : Int → MapReads φ) (useObservations : Bool)
    (mapIds : List Int) : Prop :=
  List.Forall₂ (fun mid m => m.passesReachability →
    m.errors = [] ∧ Verified (db mid) useObservations) mapIds
    (validateSet order db useObservations mapIds).perMap

/-- The report keeps what the commit bar says exactly when every map of the set is readable. -/
theorem bar_sound_iff (order : SetOrder) (db : Int → MapReads φ) (useObservations : Bool)
    (mapIds : List Int) :
    BarSound order db useObservations mapIds ↔
      ∀ mid ∈ mapIds, Readable (db mid) useObservations := by
  unfold BarSound validateSet
  rw [List.forall₂_map_right_iff, List.forall₂_same]
  constructor
  · intro h mid hmid
    by_contra hread
    obtain ⟨hpass, herrors⟩ := entry_of_not_readable order hread mid
    exact herrors (h mid hmid hpass).1
  · intro h mid hmid hpass
    exact entry_of_readable (h mid hmid) mid hpass

/-! ## The failing input -/

/-- A map without placements is counted as passing, with its error noted. -/
theorem unexamined_map_passes :
    (validateSet sortedOrder (fun _ => emptyReads) false [7]).mapsPassingReachability = 1 ∧
      ¬ BarSound sortedOrder (fun _ => emptyReads) false [7] := by
  have hentry : validateEntry sortedOrder emptyReads false 7 =
      MapReachability.blank 7 ["no_grid_placements"] := rfl
  unfold BarSound validateSet ValidationReport.mapsPassingReachability
  rw [List.map_singleton, hentry]
  constructor
  · rw [List.countP_singleton, if_pos (decide_eq_true (blank_passes _ _))]
  · intro h
    obtain ⟨hone, -⟩ := List.forall₂_cons.mp h
    exact absurd (hone (blank_passes _ _)).1 (List.cons_ne_nil _ _)

end TraxMania.Corridor
