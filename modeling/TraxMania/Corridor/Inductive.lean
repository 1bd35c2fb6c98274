import TraxMania.Corridor.CommitBar

/-
  What the two searches of `validate_map` count. The union-find over seed edges and observations
  counts the anchor sets that are connected to a spawn cell, in the graph that also has the spawn
  cells in one clique; breadth-first search counts those that the seed edges alone connect.
-/

namespace TraxMania.Corridor

open TraxMania.Grid Lib Relation

variable {φ : Type}

/-! ## Seed edges go both ways -/

theorem mem_of_append {neighbors : NeighborMap} {a b c d : Cell} :
    d ∈ (neighbors.append a b).of c ↔ d ∈ neighbors.of c ∨ (c = a ∧ d = b) := by
  by_cases h : c = a
  · rw [h, NeighborMap.of_append_self, List.mem_append, List.mem_singleton]
    simp
  · rw [NeighborMap.of_append_ne _ _ h]
    simp [h]

/-- Every list has the cells in whose lists its cell is. -/
def BothWays (neighbors : NeighborMap) : Prop :=
  ∀ c d, d ∈ neighbors.of c → c ∈ neighbors.of d

theorem bothWays_graphEdge {acc : NeighborMap × StateCounts} (h : BothWays acc.1)
    (e : (Cell × String) × (Cell × String)) : BothWays (graphEdge acc e).1 := by
  unfold graphEdge
  dsimp only
  split
  · intro c d hd
    rw [mem_of_append, mem_of_append] at hd ⊢
    rcases hd with (hd | hd) | hd
    · exact .inl (.inl (h c d hd))
    · exact .inr hd.symm
    · exact .inl (.inr hd.symm)
  · exact h

theorem bothWays_buildCellGraph (rows : List (Cell × String)) :
    BothWays (buildCellGraph rows).neighbors := by
  have hloop : ∀ (es : List ((Cell × String) × (Cell × String)))
      (s : Finset (Cell × Cell) × NeighborMap × StateCounts), BothWays s.2.1 →
      BothWays (es.foldl (seenStep cellPair graphEdge) s).2.1 := by
    intro es
    induction es with
    | nil => exact fun _ h => h
    | cons e es ih =>
      intro s h
      refine ih _ ?_
      unfold seenStep
      split
      · exact h
      · exact bothWays_graphEdge h e
  exact hloop _ _ fun _ _ hd => absurd hd List.not_mem_nil

/-! ## The graph -/

/-- Seed edges, a clique over the cells of each observation, a clique over the spawn cells. -/
def Joined (neighbors : NeighborMap) (observations : List ReplayObservation)
    (spawnCells : Finset Cell) : Cell → Cell → Prop :=
  EqvGen fun c d => Link neighbors observations c d ∨ (c ∈ spawnCells ∧ d ∈ spawnCells)

/-- Some cell of the anchor set is connected to a spawn cell of the graph. -/
def SpawnJoined (neighbors : NeighborMap) (observations : List ReplayObservation)
    (spawnCells : Finset Cell) (aset : AnchorSet) : Prop :=
  ∃ cell ∈ aset.cells, ∃ s ∈ spawnCells, Joined neighbors observations spawnCells cell s

section Graph

variable {neighbors : NeighborMap} {observations : List ReplayObservation}
  {spawnCells : Finset Cell} {aset : AnchorSet}

/-- The clique of the spawn cells connects nothing new to a spawn cell. -/
theorem spawnJoined_iff : SpawnJoined neighbors observations spawnCells aset ↔
    SpawnConnected neighbors observations spawnCells aset := by
  have hkeep : ∀ x y, Joined neighbors observations spawnCells x y →
      ((∃ s ∈ spawnCells, Connected neighbors observations x s) ↔
        ∃ s ∈ spawnCells, Connected neighbors observations y s) := by
    intro x y hxy
    refine UnionFind.eqvGen_keeps
      (P := fun x => ∃ s ∈ spawnCells, Connected neighbors observations x s)
      (fun x y hlink => ?_) hxy
    rcases hlink with hlink | ⟨hx, hy⟩
    · have hxy : Connected neighbors observations x y := EqvGen.rel _ _ hlink
      constructor
      · rintro ⟨s, hs, hxs⟩
        exact ⟨s, hs, (hxy.symm _ _).trans _ _ _ hxs⟩
      · rintro ⟨s, hs, hys⟩
        exact ⟨s, hs, hxy.trans _ _ _ hys⟩
    · exact ⟨fun _ => ⟨y, hy, EqvGen.refl y⟩, fun _ => ⟨x, hx, EqvGen.refl x⟩⟩
  constructor
  · rintro ⟨cell, hcell, s, hs, hjoined⟩
    obtain ⟨s', hs', hconn⟩ := (hkeep cell s hjoined).mpr ⟨s, hs, EqvGen.refl s⟩
    exact ⟨cell, hcell, s', hs', hconn⟩
  · rintro ⟨cell, hcell, s, hs, hconn⟩
    exact ⟨cell, hcell, s, hs, EqvGen.mono (fun _ _ => Or.inl) _ _ hconn⟩

/-- The unions of an observation connect all its cells. -/
theorem merged_of_connected (order : SetOrder) {c d : Cell}
    (h : Connected neighbors observations c d) :
    EqvGen (Merged order neighbors observations) c d := by
  have hhead : ∀ obs ∈ observations, ∀ c ∈ obs.cells, ∀ head rest,
      (order.order obs.cells).elems = head :: rest →
      EqvGen (Merged order neighbors observations) head c := by
    intro obs hobs c hc head rest he
    have hmem : c ∈ head :: rest := by
      rw [← he]
      exact (order.mem_order _ _).mpr hc
    rcases List.mem_cons.mp hmem with rfl | hmem
    · exact EqvGen.refl c
    · refine EqvGen.rel _ _ (Or.inr (List.mem_flatMap.mpr ⟨obs, hobs, ?_⟩))
      unfold observationLinks
      rw [he]
      exact List.mem_map.mpr ⟨c, hmem, rfl⟩
  induction h with
  | rel c d hlink =>
    rcases hlink with hlink | ⟨obs, hobs, hc, hd⟩
    · exact EqvGen.rel _ _ (Or.inl (NeighborMap.mem_links.mpr hlink))
    · obtain ⟨head, rest, he⟩ := List.exists_cons_of_ne_nil
        (List.ne_nil_of_mem (FrozenSet.mem_elems.mpr ((order.mem_order _ _).mpr hc)))
      exact ((hhead obs hobs c hc head rest he).symm _ _).trans _ _ _
        (hhead obs hobs d hd head rest he)
  | refl => exact EqvGen.refl _
  | symm _ _ _ ih => exact ih.symm _ _
  | trans _ _ _ _ _ ih1 ih2 => exact ih1.trans _ _ _ ih2

/-- More observations connect at least as much. -/
theorem SpawnConnected.mono {more : List ReplayObservation}
    (hmore : ∀ obs ∈ observations, obs ∈ more)
    (h : SpawnConnected neighbors observations spawnCells aset) :
    SpawnConnected neighbors more spawnCells aset := by
  obtain ⟨cell, hcell, s, hs, hconn⟩ := h
  refine ⟨cell, hcell, s, hs, EqvGen.mono (fun c d hlink => ?_) _ _ hconn⟩
  rcases hlink with hlink | ⟨obs, hobs, hcd⟩
  · exact .inl hlink
  · exact .inr ⟨obs, hmore obs hobs, hcd⟩

/-! ## The counts -/

/-- `anchor_sets_reachable_seed_only`. -/
def seedOnlyCount (order : SetOrder) (neighbors : NeighborMap) (anchorSets : List AnchorSet) :
    Nat :=
  (nonSpawnSets anchorSets).countP fun aset => (order.order aset.cells).elems.any fun cell =>
    cell ∈ bfsReachable neighbors (order.order (spawnCellsOf anchorSets))

/-- The union-find counts the sets with a cell in the component. -/
theorem countReachable_eq (order : SetOrder) (rep : Cell) (sets : List AnchorSet)
    (uf : UnionFind Cell) :
    countReachable order rep uf sets =
      sets.countP fun aset => decide (∃ cell ∈ aset.cells, uf.root cell = rep) := by
  induction sets generalizing uf with
  | nil => rfl
  | cons aset sets ih =>
    obtain ⟨htouch, hroot⟩ := touches_spec rep (order.order aset.cells).elems uf
    have hcells : (touches rep uf (order.order aset.cells).elems).2 =
        decide (∃ cell ∈ aset.cells, uf.root cell = rep) := by
      rw [Bool.eq_iff_iff, htouch, decide_eq_true_eq]
      simp only [FrozenSet.mem_elems, order.mem_order]
    unfold countReachable
    dsimp only
    rw [ih, hroot, hcells, List.countP_cons, Nat.add_comm]
    cases decide (∃ cell ∈ aset.cells, uf.root cell = rep) with
    | false => rfl
    | true => rfl

open scoped Classical in
/-- The sets that the union-find counts are those connected to a spawn cell. -/
theorem reachableCount_eq (order : SetOrder) {anchorSets : List AnchorSet}
    (hspawn : spawnCellsOf anchorSets ≠ ∅) :
    reachableCount order neighbors anchorSets observations =
      (nonSpawnSets anchorSets).countP fun aset =>
        decide (SpawnConnected neighbors observations (spawnCellsOf anchorSets) aset) := by
  unfold reachableCount
  dsimp only
  split
  · next hnil =>
    obtain ⟨c, hc⟩ := Finset.nonempty_iff_ne_empty.mpr hspawn
    have hmem := FrozenSet.mem_elems.mpr ((order.mem_order _ c).mpr hc)
    rw [hnil] at hmem
    exact absurd hmem List.not_mem_nil
  · next first rest hfirst =>
    have hmem : first ∈ order.order (spawnCellsOf anchorSets) := by
      rw [← FrozenSet.mem_elems, hfirst]
      exact List.mem_cons_self
    rw [countReachable_eq]
    refine List.countP_congr fun aset _ => ?_
    rw [decide_eq_true_eq, decide_eq_true_eq]
    unfold SpawnConnected
    simp only [root_mergeSpawn (joins_mergeAll order neighbors observations) _ hmem,
      order.mem_order]
    constructor
    · rintro ⟨cell, hcell, s, hs, hjoin⟩
      exact ⟨cell, hcell, s, hs, connected_of_merged hjoin⟩
    · rintro ⟨cell, hcell, s, hs, hconn⟩
      exact ⟨cell, hcell, s, hs, merged_of_connected order hconn⟩

/-- Over edges that go both ways breadth-first search finds all that is connected. -/
theorem mem_bfsReachable (hboth : BothWays neighbors) {sources : FrozenSet Cell} {c : Cell} :
    c ∈ bfsReachable neighbors sources ↔ ∃ s ∈ sources, Connected neighbors [] c s := by
  constructor
  · exact connected_of_mem_bfs []
  · rintro ⟨s, hs, hconn⟩
    have hkeep : c ∈ bfsReachable neighbors sources ↔ s ∈ bfsReachable neighbors sources := by
      refine UnionFind.eqvGen_keeps (P := fun x => x ∈ bfsReachable neighbors sources)
        (fun x y hlink => ?_) hconn
      have hstep : ∀ x y, y ∈ neighbors.of x → x ∈ bfsReachable neighbors sources →
          y ∈ bfsReachable neighbors sources := by
        intro x y hxy hx
        obtain ⟨s, hs, hpath⟩ := (Flood.mem_flood neighbors.mem_area).mp hx
        exact (Flood.mem_flood neighbors.mem_area).mpr ⟨s, hs, hpath.tail hxy⟩
      rcases hlink with hlink | ⟨obs, hobs, -⟩
      · exact ⟨hstep x y hlink, hstep y x (hboth x y hlink)⟩
      · exact absurd hobs List.not_mem_nil
    exact hkeep.mpr ((Flood.mem_flood neighbors.mem_area).mpr ⟨s, hs, ReflTransGen.refl⟩)

open scoped Classical in
theorem seedOnlyCount_eq (order : SetOrder) (hboth : BothWays neighbors)
    (anchorSets : List AnchorSet) :
    seedOnlyCount order neighbors anchorSets =
      (nonSpawnSets anchorSets).countP fun aset =>
        decide (SpawnConnected neighbors [] (spawnCellsOf anchorSets) aset) := by
  refine List.countP_congr fun aset _ => ?_
  rw [decide_eq_true_eq, List.any_eq_true]
  unfold SpawnConnected
  simp only [decide_eq_true_eq, mem_bfsReachable hboth, FrozenSet.mem_elems, order.mem_order]

end Graph

/-! ## What the map reports -/

/-- The counts of a map when observations are used and its replays can be read. -/
theorem validateAnchors_counts {order : SetOrder} {reads : MapReads φ} {graph : CellGraph}
    {anchorSets : List AnchorSet} (hspawn : spawnCellsOf anchorSets ≠ ∅)
    {replays : List (Int × String)} {observations : List ReplayObservation}
    (hreplays : reads.cleanReplays = .ok replays)
    (hobs : buildObservations anchorSets reads.sidecar replays = .ok observations) (mapId : Int) :
    ∃ m, validateAnchors order reads true graph anchorSets (edgeCounters mapId graph) = .ok m ∧
      m.anchorSetsReachable = reachableCount order graph.neighbors anchorSets observations ∧
      m.anchorSetsReachableSeedOnly = seedOnlyCount order graph.neighbors anchorSets := by
  have hsets : anchorSets ≠ [] := by
    rintro rfl
    exact hspawn rfl
  unfold validateAnchors
  rw [if_neg hsets]
  dsimp only
  rw [if_neg hspawn]
  by_cases hnon : nonSpawnSets anchorSets = []
  · rw [if_pos hnon]
    refine ⟨_, rfl, ?_, ?_⟩
    · rw [reachableCount_eq order hspawn, hnon]
      rfl
    · unfold seedOnlyCount
      rw [hnon]
      rfl
  · rw [if_neg hnon, if_pos rfl]
    unfold applyObservations
    rw [hreplays]
    change ∃ m, (buildObservations anchorSets reads.sidecar replays >>= _) = .ok m ∧ _
    rw [hobs]
    exact ⟨_, rfl, rfl, rfl⟩

open scoped Classical in
/-- The union-find counts the anchor sets that the graph of the map connects to a spawn cell. It
    counts no fewer than the seed edges alone, no fewer with more observations, and the same without
    observations. -/
theorem inductive_reachability (order : SetOrder) (rows : List (Cell × String))
    {anchorSets : List AnchorSet} (hspawn : spawnCellsOf anchorSets ≠ ∅)
    (observations : List ReplayObservation) :
    reachableCount order (buildCellGraph rows).neighbors anchorSets observations =
        ((nonSpawnSets anchorSets).countP fun aset =>
          decide (SpawnJoined (buildCellGraph rows).neighbors observations
            (spawnCellsOf anchorSets) aset)) ∧
      seedOnlyCount order (buildCellGraph rows).neighbors anchorSets ≤
        reachableCount order (buildCellGraph rows).neighbors anchorSets observations ∧
      (∀ more : List ReplayObservation, (∀ obs ∈ observations, obs ∈ more) →
        reachableCount order (buildCellGraph rows).neighbors anchorSets observations ≤
          reachableCount order (buildCellGraph rows).neighbors anchorSets more) ∧
      reachableCount order (buildCellGraph rows).neighbors anchorSets [] =
        seedOnlyCount order (buildCellGraph rows).neighbors anchorSets ∧
      ∀ (reads : MapReads φ) (replays : List (Int × String)) (mapId : Int),
        reads.cleanReplays = .ok replays →
        buildObservations anchorSets reads.sidecar replays = .ok observations →
        ∃ m, validateAnchors order reads true (buildCellGraph rows) anchorSets
            (edgeCounters mapId (buildCellGraph rows)) = .ok m ∧
          m.anchorSetsReachable =
            reachableCount order (buildCellGraph rows).neighbors anchorSets observations ∧
          m.anchorSetsReachableSeedOnly =
            seedOnlyCount order (buildCellGraph rows).neighbors anchorSets := by
  have hmono : ∀ obs more : List ReplayObservation, (∀ o ∈ obs, o ∈ more) →
      reachableCount order (buildCellGraph rows).neighbors anchorSets obs ≤
        reachableCount order (buildCellGraph rows).neighbors anchorSets more := by
    intro obs more hmore
    rw [reachableCount_eq order hspawn, reachableCount_eq order hspawn]
    refine List.countP_mono_left fun aset _ h => ?_
    exact decide_eq_true ((of_decide_eq_true h : SpawnConnected _ _ _ _).mono hmore)
  have hseed : reachableCount order (buildCellGraph rows).neighbors anchorSets [] =
      seedOnlyCount order (buildCellGraph rows).neighbors anchorSets := by
    rw [reachableCount_eq order hspawn, seedOnlyCount_eq order (bothWays_buildCellGraph rows)]
  refine ⟨?_, ?_, hmono observations, hseed, ?_⟩
  · rw [reachableCount_eq order hspawn]
    refine List.countP_congr fun aset _ => ?_
    rw [decide_eq_true_eq, decide_eq_true_eq, spawnJoined_iff]
  · rw [← hseed]
    exact hmono [] observations fun _ h => absurd h List.not_mem_nil
  · intro reads replays mapId hreplays hobs
    exact validateAnchors_counts hspawn hreplays hobs mapId

/-- Two spawn cells away from each other, and a goal next to the second. -/
def twoSpawns : List AnchorSet :=
  [⟨"Spawn", 0, {⟨0, 0, 0⟩, ⟨9, 0, 0⟩}⟩, ⟨"Goal", 0, {⟨8, 0, 0⟩}⟩]

/-- The roads under the second spawn and the goal. -/
def goalRoads : List (Cell × String) := [(⟨8, 0, 0⟩, "Road"), (⟨9, 0, 0⟩, "Road")]

theorem inductive_reachability_two :
    seedOnlyCount sortedOrder (buildCellGraph goalRoads).neighbors twoSpawns ≤
        reachableCount sortedOrder (buildCellGraph goalRoads).neighbors twoSpawns
          [⟨1, .spawnGoalOnly, {⟨0, 0, 0⟩, ⟨8, 0, 0⟩}⟩] ∧
      reachableCount sortedOrder (buildCellGraph goalRoads).neighbors twoSpawns [] =
        seedOnlyCount sortedOrder (buildCellGraph goalRoads).neighbors twoSpawns := by
  have hspawn : spawnCellsOf twoSpawns ≠ ∅ :=
    Finset.nonempty_iff_ne_empty.mp ⟨⟨0, 0, 0⟩, by decide +kernel⟩
  have h := inductive_reachability (φ := Int) sortedOrder goalRoads hspawn
    [⟨1, .spawnGoalOnly, {⟨0, 0, 0⟩, ⟨8, 0, 0⟩}⟩]
  exact ⟨h.2.1, h.2.2.2.1⟩

end TraxMania.Corridor
