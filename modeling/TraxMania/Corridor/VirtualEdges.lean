import TraxMania.Corridor.RouteCorridors

/-
  What `_build_enumeration_graph` makes of the seed and the observations: behind the seed neighbours
  of a cell stand the cells it was observed with, each once, and the virtual pairs are the pairs of
  cells observed together. Neither looks at the seed.

  The virtual flag of a stored corridor is set by two cells observed together, also where they are
  neighbours on the grid. A step that is no grid edge can only come from an observation, so the flag
  never misses one.
-/

namespace TraxMania.Corridor

open TraxMania.Grid

variable {α : Type*} [LinearOrder α]

/-- Two cells of one observation. -/
def ObservedTogether (observationSets : List (FrozenSet α)) (a b : α) : Prop :=
  a ≠ b ∧ ∃ obs ∈ observationSets, a ∈ obs ∧ b ∈ obs

/-- The lists are the seed's, each with its virtual partners behind it. -/
def Linked (neighborsSeed : α → List α) (acc : Augmented α) : Prop :=
  ∀ c, ∃ partners : List α, acc.1 c = neighborsSeed c ++ partners ∧ partners.Nodup ∧
    ∀ b, b ∈ partners ↔ b ≠ c ∧ (min c b, max c b) ∈ acc.2

theorem Linked.start (neighborsSeed : α → List α) : Linked neighborsSeed (neighborsSeed, ∅) :=
  fun c => ⟨[], (List.append_nil _).symm, List.nodup_nil, fun b => by simp⟩

/-- `combined[a].append(b)`, `combined[b].append(a)`. -/
theorem appendNeighbor_both (combined : α → List α) {a b : α} (hab : a ≠ b) (c : α) :
    appendNeighbor (appendNeighbor combined a b) b a c =
      combined c ++ if c = a then [b] else if c = b then [a] else [] := by
  unfold appendNeighbor
  by_cases hb : c = b
  · subst hb
    rw [Function.update_self, Function.update_of_ne hab.symm, if_neg hab.symm, if_pos rfl]
  · rw [Function.update_of_ne hb]
    by_cases ha : c = a
    · subst ha
      rw [Function.update_self, if_pos rfl]
    · rw [Function.update_of_ne ha, if_neg ha, if_neg hb, List.append_nil]

theorem linkPair_eq (acc : Augmented α) (a b : α) :
    linkPair acc a b =
      if (min a b, max a b) ∈ acc.2 then acc
      else (appendNeighbor (appendNeighbor acc.1 a b) b a, insert (min a b, max a b) acc.2) := rfl

/-- A cell of a new pair gets the other cell as its last partner. -/
theorem partners_concat {edges : Finset (α × α)} {c d : α} {partners : List α} (hcd : d ≠ c)
    (hnodup : partners.Nodup) (hmem : ∀ y, y ∈ partners ↔ y ≠ c ∧ (min c y, max c y) ∈ edges)
    (hnew : (min c d, max c d) ∉ edges) :
    (partners ++ [d]).Nodup ∧ ∀ y, y ∈ partners ++ [d] ↔
      y ≠ c ∧ (min c y, max c y) ∈ insert (min c d, max c d) edges := by
  have hd : d ∉ partners := fun hd => hnew ((hmem d).mp hd).2
  refine ⟨List.nodup_append.mpr ⟨hnodup, List.nodup_singleton d, fun x hx y hy hxy =>
    hd (List.mem_singleton.mp hy ▸ hxy ▸ hx)⟩, fun y => ?_⟩
  rw [List.mem_append, hmem, List.mem_singleton, Finset.mem_insert, minMax_eq_iff]
  constructor
  · rintro (hy | rfl)
    · exact ⟨hy.1, .inr hy.2⟩
    · exact ⟨hcd, .inl (.inl ⟨rfl, rfl⟩)⟩
  · rintro ⟨hy, (⟨-, rfl⟩ | ⟨rfl, -⟩) | hold⟩
    · exact .inr rfl
    · exact absurd rfl hcd
    · exact .inl ⟨hy, hold⟩

/-- A new pair adds each of its cells to the list of the other. -/
theorem Linked.linkPair {neighborsSeed : α → List α} {acc : Augmented α}
    (h : Linked neighborsSeed acc) {a b : α} (hab : a ≠ b) :
    Linked neighborsSeed (linkPair acc a b) := by
  rw [linkPair_eq]
  split
  · exact h
  · next hnew =>
    intro c
    obtain ⟨partners, hlist, hnodup, hmem⟩ := h c
    simp only
    rw [appendNeighbor_both _ hab, hlist]
    by_cases hca : c = a
    · subst hca
      obtain ⟨hnodup', hmem'⟩ := partners_concat hab.symm hnodup hmem hnew
      exact ⟨partners ++ [b], by rw [if_pos rfl, List.append_assoc], hnodup', hmem'⟩
    · by_cases hcb : c = b
      · subst hcb
        rw [min_comm, max_comm] at hnew ⊢
        obtain ⟨hnodup', hmem'⟩ := partners_concat hab hnodup hmem hnew
        exact ⟨partners ++ [a], by rw [if_neg hca, if_pos rfl, List.append_assoc], hnodup',
          hmem'⟩
      · refine ⟨partners, by rw [if_neg hca, if_neg hcb, List.append_nil], hnodup, fun y => ?_⟩
        rw [hmem, Finset.mem_insert, minMax_eq_iff]
        constructor
        · exact fun hy => ⟨hy.1, .inr hy.2⟩
        · rintro ⟨hy, (⟨rfl, -⟩ | ⟨rfl, -⟩) | hold⟩
          · exact absurd rfl hca
          · exact absurd rfl hcb
          · exact ⟨hy, hold⟩

theorem mem_linkPair {acc : Augmented α} {a b : α} {pair : α × α} :
    pair ∈ (linkPair acc a b).2 ↔ pair = (min a b, max a b) ∨ pair ∈ acc.2 := by
  rw [linkPair_eq]
  split
  · next hold =>
    exact ⟨.inr, fun h => h.elim (fun he => he ▸ hold) id⟩
  · exact Finset.mem_insert

/-- The inner loop links `a` to each of `rest`. -/
theorem foldl_linkPair {neighborsSeed : α → List α} {a : α} {rest : List α} (ha : a ∉ rest)
    {acc : Augmented α} (h : Linked neighborsSeed acc) :
    Linked neighborsSeed (rest.foldl (fun acc b => linkPair acc a b) acc) ∧
      ∀ pair, pair ∈ (rest.foldl (fun acc b => linkPair acc a b) acc).2 ↔
        (∃ b ∈ rest, pair = (min a b, max a b)) ∨ pair ∈ acc.2 := by
  induction rest generalizing acc with
  | nil => exact ⟨h, by simp⟩
  | cons b rest ih =>
    rw [List.mem_cons, not_or] at ha
    obtain ⟨hlinked, hmem⟩ := ih ha.2 (h.linkPair ha.1)
    refine ⟨hlinked, fun pair => ?_⟩
    rw [List.foldl_cons, hmem, mem_linkPair, List.exists_mem_cons_iff, or_left_comm, or_assoc]

/-- Both loops link each two cells of an observation. -/
theorem linkCells_linked {neighborsSeed : α → List α} {cells : List α} (hnodup : cells.Nodup)
    {acc : Augmented α} (h : Linked neighborsSeed acc) :
    Linked neighborsSeed (linkCells acc cells) ∧
      ∀ a b, (min a b, max a b) ∈ (linkCells acc cells).2 ↔
        (a ≠ b ∧ a ∈ cells ∧ b ∈ cells) ∨ (min a b, max a b) ∈ acc.2 := by
  induction cells generalizing acc with
  | nil => exact ⟨h, by simp [linkCells]⟩
  | cons x rest ih =>
    rw [List.nodup_cons] at hnodup
    obtain ⟨hlinked, hmem⟩ := foldl_linkPair hnodup.1 h
    obtain ⟨hlinked', hmem'⟩ := ih hnodup.2 hlinked
    refine ⟨hlinked', fun a b => ?_⟩
    unfold linkCells
    rw [hmem', hmem]
    simp only [minMax_eq_iff, List.mem_cons]
    constructor
    · rintro (⟨hab, ha, hb⟩ | ⟨y, hy, ⟨rfl, rfl⟩ | ⟨rfl, rfl⟩⟩ | hold)
      · exact .inl ⟨hab, .inr ha, .inr hb⟩
      · exact .inl ⟨fun e => hnodup.1 (e ▸ hy), .inl rfl, .inr hy⟩
      · exact .inl ⟨fun e => hnodup.1 (e ▸ hy), .inr hy, .inl rfl⟩
      · exact .inr hold
    · rintro (⟨hab, rfl | ha, rfl | hb⟩ | hold)
      · exact absurd rfl hab
      · exact .inr (.inl ⟨b, hb, .inl ⟨rfl, rfl⟩⟩)
      · exact .inr (.inl ⟨a, ha, .inr ⟨rfl, rfl⟩⟩)
      · exact .inl ⟨hab, ha, hb⟩
      · exact .inr (.inr hold)

/-- The graph of all observations. -/
theorem buildEnumerationGraph_linked (neighborsSeed : α → List α)
    (observationSets : List (FrozenSet α)) :
    Linked neighborsSeed (buildEnumerationGraph neighborsSeed observationSets) ∧
      ∀ a b, (min a b, max a b) ∈ (buildEnumerationGraph neighborsSeed observationSets).2 ↔
        ObservedTogether observationSets a b := by
  have hfold : ∀ (sets : List (FrozenSet α)) (acc : Augmented α), Linked neighborsSeed acc →
      Linked neighborsSeed (sets.foldl (fun acc obs => linkCells acc obs.elems) acc) ∧
        ∀ a b, (min a b, max a b) ∈
            (sets.foldl (fun acc obs => linkCells acc obs.elems) acc).2 ↔
          ObservedTogether sets a b ∨ (min a b, max a b) ∈ acc.2 := by
    intro sets
    induction sets with
    | nil =>
      intro acc h
      exact ⟨h, by simp [ObservedTogether]⟩
    | cons obs sets ih =>
      intro acc h
      obtain ⟨hlinked, hmem⟩ := linkCells_linked obs.nodup h
      obtain ⟨hlinked', hmem'⟩ := ih _ hlinked
      refine ⟨hlinked', fun a b => ?_⟩
      rw [List.foldl_cons, hmem', hmem]
      unfold ObservedTogether
      rw [List.exists_mem_cons_iff, FrozenSet.mem_elems, FrozenSet.mem_elems, and_or_left,
        or_left_comm, or_assoc]
  obtain ⟨hlinked, hmem⟩ := hfold observationSets _ (Linked.start neighborsSeed)
  refine ⟨hlinked, fun a b => ?_⟩
  unfold buildEnumerationGraph
  rw [hmem]
  simp

/-- The virtual pairs are the pairs of cells observed together. -/
theorem mem_virtual (neighborsSeed : α → List α) (observationSets : List (FrozenSet α)) (a b : α) :
    (min a b, max a b) ∈ (buildEnumerationGraph neighborsSeed observationSets).2 ↔
      ObservedTogether observationSets a b :=
  (buildEnumerationGraph_linked neighborsSeed observationSets).2 a b

/-- The neighbours of a cell: those of the seed, then the cells it was observed with. -/
theorem combined_eq (neighborsSeed : α → List α) (observationSets : List (FrozenSet α)) (c : α) :
    ∃ partners : List α, (buildEnumerationGraph neighborsSeed observationSets).1 c =
      neighborsSeed c ++ partners ∧ partners.Nodup ∧
        ∀ b, b ∈ partners ↔ ObservedTogether observationSets c b := by
  obtain ⟨partners, hlist, hnodup, hmem⟩ :=
    (buildEnumerationGraph_linked neighborsSeed observationSets).1 c
  refine ⟨partners, hlist, hnodup, fun b => ?_⟩
  rw [hmem, mem_virtual]
  exact ⟨fun h => h.2, fun h => ⟨h.1.symm, h⟩⟩

/-- A step of the graph is an edge of the seed or between two cells observed together. -/
theorem mem_combined {neighborsSeed : α → List α} {observationSets : List (FrozenSet α)} {c b : α} :
    b ∈ (buildEnumerationGraph neighborsSeed observationSets).1 c ↔
      b ∈ neighborsSeed c ∨ ObservedTogether observationSets c b := by
  obtain ⟨partners, hlist, -, hmem⟩ := combined_eq neighborsSeed observationSets c
  rw [hlist, List.mem_append, hmem]

/-! ## The flag of a path -/

/-- The consecutive pairs of a path. -/
def steps (path : List Cell) : List (Cell × Cell) := path.zip path.tail

/-- A path holds a virtual pair. -/
theorem pathContainsVirtualEdge_iff {virtualEdges : Finset (Cell × Cell)} {path : List Cell} :
    pathContainsVirtualEdge virtualEdges path = true ↔
      ∃ e ∈ steps path, (min e.1 e.2, max e.1 e.2) ∈ virtualEdges := by
  induction path with
  | nil => simp [pathContainsVirtualEdge, steps]
  | cons a path ih =>
    cases path with
    | nil => simp [pathContainsVirtualEdge, steps]
    | cons b path =>
      have hsteps : steps (a :: b :: path) = (a, b) :: steps (b :: path) := rfl
      unfold pathContainsVirtualEdge
      rw [hsteps, List.exists_mem_cons_iff]
      split
      · next hpair => exact ⟨fun _ => .inl hpair, fun _ => rfl⟩
      · next hpair =>
        rw [ih]
        exact ⟨.inr, fun h => h.resolve_left hpair⟩

theorem forall_steps {R : Cell → Cell → Prop} {path : List Cell} (h : path.IsChain R) :
    ∀ e ∈ steps path, R e.1 e.2 := by
  induction path with
  | nil => exact fun e he => absurd he List.not_mem_nil
  | cons a path ih =>
    cases path with
    | nil => exact fun e he => absurd he List.not_mem_nil
    | cons b path =>
      obtain ⟨hab, hrest⟩ := List.isChain_cons_cons.mp h
      intro e he
      rcases List.mem_cons.mp he with rfl | he
      · exact hab
      · exact ih hrest e he

/-- A returned path goes from neighbour to neighbour. -/
theorem isChain_of_enumerated {neighbors : Cell → List Cell} {sources targets : FrozenSet Cell}
    {depthCap : Int} {path : List Cell}
    (h : path ∈ enumerateSimplePaths neighbors sources targets depthCap p95PathCountCap) :
    path.IsChain fun x y => y ∈ neighbors x := by
  rw [enumerateSimplePaths_eq _ _ _ _ _ (by decide)] at h
  rcases mem_recordedPaths.mp (List.mem_of_mem_take h) with
    ⟨s, -, -, rfl⟩ | ⟨pre, s, post, hS, a, ha, t, ht, hT, rfl⟩
  · exact List.IsChain.singleton s
  · have hs : s ∈ sources := by
      rw [← FrozenSet.mem_elems, hS]
      simp
    exact (isCorridor_goOn hs (runOf_approach ha ⟨t, ht, hT⟩) ht hT).steps

/-- The flag of an enumerated path says whether some step of it is no grid edge, if and only if it
    is not a path along grid edges with two consecutive cells that were observed together. -/
theorem virtual_flag_iff (rows : List (Cell × String)) (observationSets : List (FrozenSet Cell))
    (sources targets : FrozenSet Cell) (depthCap : Int) {path : List Cell}
    (h : path ∈ enumerateSimplePaths
      (buildEnumerationGraph (buildCellGraph rows).neighbors.of observationSets).1 sources targets
      depthCap p95PathCountCap) :
    (pathContainsVirtualEdge
        (buildEnumerationGraph (buildCellGraph rows).neighbors.of observationSets).2 path = true ↔
      ∃ e ∈ steps path, e.2 ∉ (buildCellGraph rows).neighbors.of e.1) ↔
    ¬ ((∀ e ∈ steps path, e.2 ∈ (buildCellGraph rows).neighbors.of e.1) ∧
      ∃ e ∈ steps path, ObservedTogether observationSets e.1 e.2) := by
  have hflag : pathContainsVirtualEdge
      (buildEnumerationGraph (buildCellGraph rows).neighbors.of observationSets).2 path = true ↔
        ∃ e ∈ steps path, ObservedTogether observationSets e.1 e.2 := by
    rw [pathContainsVirtualEdge_iff]
    simp only [mem_virtual]
  have hsteps := forall_steps (isChain_of_enumerated h)
  rw [hflag]
  constructor
  · rintro hiff ⟨hgrid, hobserved⟩
    obtain ⟨e, he, hno⟩ := hiff.mp hobserved
    exact hno (hgrid e he)
  · intro hcond
    constructor
    · intro hobserved
      by_contra hgrid
      refine hcond ⟨fun e he => ?_, hobserved⟩
      by_contra hno
      exact hgrid ⟨e, he, hno⟩
    · rintro ⟨e, he, hno⟩
      exact ⟨e, he, (mem_combined.mp (hsteps e he)).resolve_left hno⟩

/-- Two road blocks side by side, and a third one far away. -/
def farRows : List (Cell × String) :=
  [(⟨0, 0, 0⟩, "Road"), (⟨1, 0, 0⟩, "Road"), (⟨9, 0, 0⟩, "Road")]

/-- The first two, observed together. -/
def gatePair : FrozenSet Cell := ⟨[⟨1, 0, 0⟩, ⟨0, 0, 0⟩], by decide⟩

/-- The last two, observed together. -/
def farPair : FrozenSet Cell := ⟨[⟨1, 0, 0⟩, ⟨9, 0, 0⟩], by decide⟩

/-- The hop to the far block is flagged, and it is no grid edge. -/
theorem virtual_flag_far :
    (pathContainsVirtualEdge
        (buildEnumerationGraph (buildCellGraph farRows).neighbors.of [farPair]).2
        [⟨1, 0, 0⟩, ⟨9, 0, 0⟩] = true ↔
      ∃ e ∈ steps [⟨1, 0, 0⟩, ⟨9, 0, 0⟩], e.2 ∉ (buildCellGraph farRows).neighbors.of e.1) :=
  (virtual_flag_iff farRows [farPair] ⟨[⟨1, 0, 0⟩], List.nodup_singleton _⟩
    ⟨[⟨9, 0, 0⟩], List.nodup_singleton _⟩ defaultDepthCap (by decide +kernel)).mpr
    fun h => absurd h.1 (by decide +kernel)

/-- The one step along the grid edge is flagged, because both cells are in one observation. -/
theorem grid_path_flagged :
    [⟨0, 0, 0⟩, ⟨1, 0, 0⟩] ∈ enumerateSimplePaths
        (buildEnumerationGraph (buildCellGraph farRows).neighbors.of [gatePair]).1
        ⟨[⟨0, 0, 0⟩], List.nodup_singleton _⟩ ⟨[⟨1, 0, 0⟩], List.nodup_singleton _⟩
        defaultDepthCap p95PathCountCap ∧
      pathContainsVirtualEdge
        (buildEnumerationGraph (buildCellGraph farRows).neighbors.of [gatePair]).2
        [⟨0, 0, 0⟩, ⟨1, 0, 0⟩] = true ∧
      ¬ ∃ e ∈ steps [⟨0, 0, 0⟩, ⟨1, 0, 0⟩], e.2 ∉ (buildCellGraph farRows).neighbors.of e.1 := by
  decide +kernel

end TraxMania.Corridor
