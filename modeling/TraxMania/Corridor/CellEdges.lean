import TraxMania.Corridor.CellGraph

/-
  The placement that stands for a cell, the first among those of the best bucket: the three
  dictionaries of `CellGraph` hold it, each with the fields its reader needs.

  The edges of a map are the pairs of axis-adjacent occupied cells, each once. The two loops of the
  source skip a pair they have seen by different keys, and are left with the same edges.
-/

namespace TraxMania.Corridor

open TraxMania.Grid Lib

variable {β γ : Type*}

/-- The placements of a cell, in the order they were fetched. -/
def layers (placements : List GridPlacement) (c : Cell) : List GridPlacement :=
  placements.filter fun p => decide (p.cell = c)

/-- The placement that stands for the cell: the first of the best bucket. -/
def winner (placements : List GridPlacement) (c : Cell) : Option GridPlacement :=
  (layers placements c).argmax fun p => p.bucket.rank

theorem winner_mem {placements : List GridPlacement} {c : Cell} {p : GridPlacement}
    (h : winner placements c = some p) : p ∈ placements ∧ p.cell = c := by
  have hmem : p ∈ layers placements c := List.argmax_mem h
  unfold layers at hmem
  rw [List.mem_filter] at hmem
  exact ⟨hmem.1, of_decide_eq_true hmem.2⟩

/-! ## The loop keeps the winner -/

/-- The placements themselves, one for each cell. -/
def winners (placements : List GridPlacement) : Dict Cell GridPlacement :=
  resolve GridPlacement.bucket (placements.map fun p => (p.cell, p))

theorem winners_append_one (placements : List GridPlacement) (p : GridPlacement) :
    winners (placements ++ [p]) = settle GridPlacement.bucket (winners placements) (p.cell, p) := by
  unfold winners resolve
  rw [List.map_append, List.foldl_append]
  rfl

theorem layers_append_self (placements : List GridPlacement) (p : GridPlacement) :
    layers (placements ++ [p]) p.cell = layers placements p.cell ++ [p] := by
  unfold layers
  rw [List.filter_append]
  simp

theorem layers_append_ne {placements : List GridPlacement} {p : GridPlacement} {c : Cell}
    (h : c ≠ p.cell) : layers (placements ++ [p]) c = layers placements c := by
  unfold layers
  rw [List.filter_append]
  simp [h.symm]

/-- One more placement: it wins its cell when it is the first there, or of a better bucket than
    the winner so far. -/
theorem winner_append_one (placements : List GridPlacement) (p : GridPlacement) (c : Cell) :
    winner (placements ++ [p]) c =
      if c = p.cell then
        match winner placements c with
        | none => some p
        | some q => if q.bucket.Promotes p.bucket then some p else some q
      else winner placements c := by
  unfold winner
  by_cases h : c = p.cell
  · subst h
    rw [if_pos rfl, layers_append_self, List.argmax_concat]
    cases (layers placements p.cell).argmax fun p => p.bucket.rank with
    | none => rfl
    | some q => simp only [FamilyBucket.promotes_iff]
  · rw [if_neg h, layers_append_ne h]

theorem get?_winners (placements : List GridPlacement) (c : Cell) :
    (winners placements).get? c = winner placements c := by
  induction placements using List.reverseRecOn with
  | nil => rfl
  | append_singleton placements p ih =>
    rw [winners_append_one, winner_append_one, settle, Dict.get?_upsert]
    by_cases h : c = p.cell
    · rw [if_pos h, if_pos h, ← h, ih]
      cases winner placements c with
      | none => rfl
      | some q => exact apply_ite some _ p q
    · rw [if_neg h, if_neg h, ih]

/-- An item of the dictionary: the cell, and what stands for it. -/
theorem mem_winners {placements : List GridPlacement} {c : Cell} {p : GridPlacement} :
    (c, p) ∈ (winners placements).items ↔ winner placements c = some p := by
  rw [← get?_winners]
  constructor
  · exact Dict.get?_eq_some
  · exact Dict.mem_items_of_get?

/-! ## The three dictionaries -/

/-- The loop commutes with a change of the entries that keeps their buckets. -/
theorem resolve_map (bucket : γ → FamilyBucket) (g : β → γ) (rows : List (Cell × β)) :
    resolve bucket (rows.map fun r => (r.1, g r.2)) =
      (resolve (fun b => bucket (g b)) rows).mapVal g := by
  induction rows using List.reverseRecOn with
  | nil => rfl
  | append_singleton rows r ih =>
    unfold resolve at ih ⊢
    rw [List.map_append, List.foldl_append, List.foldl_append, ih, List.map_singleton,
      List.foldl_cons, List.foldl_nil, List.foldl_cons, List.foldl_nil]
    unfold settle
    refine Dict.mapVal_upsert fun old => ?_
    cases old with
    | none => rfl
    | some existing =>
      show (if _ then _ else _) = _
      exact (apply_ite g _ r.2 existing).symm

/-- Entries made from the placements. -/
theorem resolve_placements (bucket : β → FamilyBucket) (entry : GridPlacement → β)
    (hentry : ∀ p, bucket (entry p) = p.bucket) (placements : List GridPlacement) :
    resolve bucket (placements.map fun p => (p.cell, entry p)) =
      (winners placements).mapVal entry := by
  have hmap : (placements.map fun p => (p.cell, entry p)) =
      (placements.map fun p => (p.cell, p)).map fun r => (r.1, entry r.2) := by
    rw [List.map_map]
    rfl
  have hbucket : (fun p => bucket (entry p)) = GridPlacement.bucket := funext hentry
  rw [hmap, resolve_map, hbucket]
  rfl

/-- The rows of `_fetch_map_grid_blocks`: the same placements without their ids. -/
def gridBlocks (placements : List GridPlacement) : List (Cell × String) :=
  placements.map fun p => (p.cell, p.family)

theorem cellToFamily_eq (placements : List GridPlacement) :
    cellToFamily (gridBlocks placements) = (winners placements).mapVal (·.family) :=
  resolve_placements classifyFamily (·.family) (fun _ => rfl) placements

/-- The entry of `cell_to` for a placement. -/
def cellEntry (p : GridPlacement) : Int × String × FamilyBucket :=
  (p.id, p.family, classifyFamily p.family)

theorem cellTo_eq (placements : List GridPlacement) :
    cellTo placements = (winners placements).mapVal cellEntry :=
  resolve_placements (fun entry : Int × String × FamilyBucket => entry.2.2) cellEntry
    (fun _ => rfl) placements

theorem cellToPlacementMap_eq (placements : List GridPlacement) :
    cellToPlacementMap placements = (winners placements).mapVal (·.id) := by
  have h := resolve_placements (fun entry : Int × FamilyBucket => entry.2)
    (fun p => (p.id, classifyFamily p.family)) (fun _ => rfl) placements
  unfold cellToPlacementMap
  rw [h]
  refine Dict.ext_items ?_
  show ((winners placements).items.map _).map _ = _
  rw [List.map_map]
  rfl

theorem get?_cellToFamily (placements : List GridPlacement) (c : Cell) :
    (cellToFamily (gridBlocks placements)).get? c = (winner placements c).map (·.family) := by
  rw [cellToFamily_eq, Dict.get?_mapVal, get?_winners]

theorem get?_cellTo (placements : List GridPlacement) (c : Cell) :
    (cellTo placements).get? c = (winner placements c).map cellEntry := by
  rw [cellTo_eq, Dict.get?_mapVal, get?_winners]

theorem get?_cellToPlacementMap (placements : List GridPlacement) (c : Cell) :
    (cellToPlacementMap placements).get? c = (winner placements c).map (·.id) := by
  rw [cellToPlacementMap_eq, Dict.get?_mapVal, get?_winners]

/-! ## Adjacent cells -/

/-- The cells are one step apart along one axis. -/
def AxisAdjacent (c d : Cell) : Prop :=
  (c.x - d.x).natAbs + (c.y - d.y).natAbs + (c.z - d.z).natAbs = 1

instance : DecidableRel AxisAdjacent := fun c d => by unfold AxisAdjacent; infer_instance

theorem AxisAdjacent.symm {c d : Cell} (h : AxisAdjacent c d) : AxisAdjacent d c := by
  unfold AxisAdjacent at h ⊢
  omega

theorem AxisAdjacent.ne {c d : Cell} (h : AxisAdjacent c d) : c ≠ d := by
  rintro rfl
  unfold AxisAdjacent at h
  omega

theorem mem_axisNeighbors {c d : Cell} : d ∈ axisNeighbors c ↔ AxisAdjacent c d := by
  have hback : ∀ x y z : Int, d = ⟨c.x + x, c.y + y, c.z + z⟩ ↔ d - c = ⟨x, y, z⟩ := by
    intro x y z
    simp only [Cell.ext_iff, Cell.sub_x, Cell.sub_y, Cell.sub_z]
    omega
  have hsteps : AxisAdjacent d c ↔ _ := Cell.natAbs_eq_one_iff (v := d - c)
  rw [show AxisAdjacent c d ↔ AxisAdjacent d c from ⟨AxisAdjacent.symm, AxisAdjacent.symm⟩, hsteps]
  unfold axisNeighbors
  simp only [← hback, List.mem_cons, List.not_mem_nil, or_false, add_zero, ← sub_eq_add_neg]

/-! ## The turns of the loops -/

/-- The same turn with other entries. -/
def mapEntry (g : β → γ) (e : (Cell × β) × (Cell × β)) : (Cell × γ) × (Cell × γ) :=
  ((e.1.1, g e.1.2), (e.2.1, g e.2.2))

theorem adjacentEntries_mapVal (cells : Dict Cell β) (g : β → γ) :
    adjacentEntries (cells.mapVal g) = (adjacentEntries cells).map (mapEntry g) := by
  unfold adjacentEntries
  show (cells.items.map _).flatMap _ = _
  rw [List.flatMap_map, List.map_flatMap]
  congr 1
  funext entry
  rw [List.map_filterMap]
  congr 1
  funext nb
  rw [Dict.get?_mapVal, Option.map_map, Option.map_map]
  rfl

/-- A turn over the placements themselves. -/
abbrev Turn := (Cell × GridPlacement) × (Cell × GridPlacement)

theorem mem_adjacentEntries {placements : List GridPlacement} {e : Turn} :
    e ∈ adjacentEntries (winners placements) ↔ winner placements e.1.1 = some e.1.2 ∧
      winner placements e.2.1 = some e.2.2 ∧ AxisAdjacent e.1.1 e.2.1 := by
  obtain ⟨⟨c, p⟩, d, q⟩ := e
  unfold adjacentEntries
  rw [List.mem_flatMap]
  simp only [List.mem_filterMap, get?_winners, Option.map_eq_some_iff]
  constructor
  · rintro ⟨⟨c', p'⟩, hmem, d', hd', q', hq', he⟩
    obtain ⟨hce, hde⟩ := Prod.mk.inj he
    obtain ⟨rfl, rfl⟩ := Prod.mk.inj hce
    obtain ⟨rfl, rfl⟩ := Prod.mk.inj hde
    exact ⟨mem_winners.mp hmem, hq', mem_axisNeighbors.mp hd'⟩
  · rintro ⟨hc, hd, hadj⟩
    exact ⟨(c, p), mem_winners.mpr hc, d, mem_axisNeighbors.mpr hadj, q, hd, rfl⟩

/-! ## The edges -/

/-- The first turn for each pair of cells. -/
def edges (placements : List GridPlacement) : List Turn :=
  firsts cellPair (adjacentEntries (winners placements))

theorem mem_edges {placements : List GridPlacement} {e : Turn} (h : e ∈ edges placements) :
    winner placements e.1.1 = some e.1.2 ∧ winner placements e.2.1 = some e.2.2 ∧
      AxisAdjacent e.1.1 e.2.1 :=
  mem_adjacentEntries.mp (mem_of_mem_firsts h)

/-- The smaller and the larger of two tell which two they are. -/
theorem minMax_eq_iff {κ : Type*} [LinearOrder κ] {a b c d : κ} :
    (min a b, max a b) = (min c d, max c d) ↔ a = c ∧ b = d ∨ a = d ∧ b = c := by
  constructor
  · intro h
    obtain ⟨hmin, hmax⟩ := Prod.mk.inj h
    rcases le_total a b with hab | hab
    · rw [min_eq_left hab, max_eq_right hab] at *
      rcases le_total c d with hcd | hcd
      · rw [min_eq_left hcd, max_eq_right hcd] at *
        exact Or.inl ⟨hmin, hmax⟩
      · rw [min_eq_right hcd, max_eq_left hcd] at *
        exact Or.inr ⟨hmin, hmax⟩
    · rw [min_eq_right hab, max_eq_left hab] at *
      rcases le_total c d with hcd | hcd
      · rw [min_eq_left hcd, max_eq_right hcd] at *
        exact Or.inr ⟨hmax, hmin⟩
      · rw [min_eq_right hcd, max_eq_left hcd] at *
        exact Or.inl ⟨hmax, hmin⟩
  · rintro (⟨rfl, rfl⟩ | ⟨rfl, rfl⟩)
    · rfl
    · rw [min_comm, max_comm]

theorem loHi_eq (a b : Int) : loHi a b = (min a b, max a b) := by
  unfold loHi
  split
  · next h => rw [min_eq_left h.le, max_eq_right h.le]
  · next h => rw [min_eq_right (not_lt.mp h), max_eq_left (not_lt.mp h)]

theorem edges_pairwise (placements : List GridPlacement) :
    (edges placements).Pairwise fun e e' => cellPair e ≠ cellPair e' :=
  firsts_pairwise cellPair _

/-- Two adjacent occupied cells have their edge, from one side or the other. -/
theorem exists_edge {placements : List GridPlacement} {c d : Cell} {p q : GridPlacement}
    (hc : winner placements c = some p) (hd : winner placements d = some q)
    (hadj : AxisAdjacent c d) :
    ((c, p), (d, q)) ∈ edges placements ∨ ((d, q), (c, p)) ∈ edges placements := by
  have hturn : ((c, p), (d, q)) ∈ adjacentEntries (winners placements) :=
    mem_adjacentEntries.mpr ⟨hc, hd, hadj⟩
  obtain ⟨e, he, hkey⟩ : ∃ e ∈ edges placements, cellPair e = cellPair ((c, p), (d, q)) :=
    exists_mem_firsts hturn
  obtain ⟨hw1, hw2, -⟩ := mem_edges he
  obtain ⟨⟨c', p'⟩, d', q'⟩ := e
  rcases minMax_eq_iff.mp hkey with ⟨rfl, rfl⟩ | ⟨rfl, rfl⟩
  · obtain rfl := Option.some.inj (hc.symm.trans hw1)
    obtain rfl := Option.some.inj (hd.symm.trans hw2)
    exact Or.inl he
  · obtain rfl := Option.some.inj (hd.symm.trans hw1)
    obtain rfl := Option.some.inj (hc.symm.trans hw2)
    exact Or.inr he

/-! ## The loop of the graph -/

/-- What a loop over the turns does when the entries are made from the placements. -/
theorem foldl_turns {σ κ : Type*} [DecidableEq κ] (entry : GridPlacement → β)
    (key : (Cell × β) × (Cell × β) → κ) (f : σ → (Cell × β) × (Cell × β) → σ) (init : σ)
    (placements : List GridPlacement) :
    ((adjacentEntries ((winners placements).mapVal entry)).foldl (seenStep key f)
        (∅, init)).2 =
      (firsts (fun e => key (mapEntry entry e)) (adjacentEntries (winners placements))).foldl
        (fun acc e => f acc (mapEntry entry e)) init := by
  rw [foldl_seenStep, adjacentEntries_mapVal, firstsFrom_map, List.foldl_map]
  rfl

/-- The neighbours and the counts, from the edges. -/
theorem buildCellGraph_out (placements : List GridPlacement) :
    ((buildCellGraph (gridBlocks placements)).neighbors,
      (buildCellGraph (gridBlocks placements)).counts) =
      (edges placements).foldl (fun acc e => graphEdge acc (mapEntry (·.family) e))
        (Dict.empty, StateCounts.zero) := by
  have h := foldl_turns (fun p => p.family) cellPair graphEdge (Dict.empty, StateCounts.zero)
    placements
  rw [← cellToFamily_eq] at h
  exact h

/-! ## The loop of the evidence rows -/

section

variable {placements : List GridPlacement} (hids : (placements.map (·.id)).Nodup)

include hids

/-- Distinct ids: the id of a winner tells its cell. -/
theorem winner_id_inj {c d : Cell} {p q : GridPlacement} (hc : winner placements c = some p)
    (hd : winner placements d = some q) (h : p.id = q.id) : c = d := by
  obtain ⟨hp, hpc⟩ := winner_mem hc
  obtain ⟨hq, hqd⟩ := winner_mem hd
  have hpq : p = q := List.inj_on_of_nodup_map hids hp hq h
  rw [← hpc, ← hqd, hpq]

/-- The pair of ids and the pair of cells tell the same turns apart. -/
theorem cellPair_iff_idPair {e e' : Turn} (he : e ∈ adjacentEntries (winners placements))
    (he' : e' ∈ adjacentEntries (winners placements)) :
    cellPair e = cellPair e' ↔
      idPair (mapEntry cellEntry e) = idPair (mapEntry cellEntry e') := by
  obtain ⟨h1, h2, -⟩ := mem_adjacentEntries.mp he
  obtain ⟨h1', h2', -⟩ := mem_adjacentEntries.mp he'
  obtain ⟨⟨a, p⟩, b, q⟩ := e
  obtain ⟨⟨a', p'⟩, b', q'⟩ := e'
  show (min a b, max a b) = (min a' b', max a' b') ↔ loHi p.id q.id = loHi p'.id q'.id
  have hsame : ∀ {c c' : Cell} {r r' : GridPlacement}, winner placements c = some r →
      winner placements c' = some r' → (c = c' ↔ r.id = r'.id) := by
    intro c c' r r' hr hr'
    constructor
    · rintro rfl
      rw [Option.some.inj (hr.symm.trans hr')]
    · exact winner_id_inj hids hr hr'
  rw [loHi_eq, loHi_eq, minMax_eq_iff, minMax_eq_iff, hsame h1 h1', hsame h2 h2', hsame h1 h2',
    hsame h2 h1']

/-- The two keys leave the same edges. -/
theorem firsts_idPair :
    firsts (fun e => idPair (mapEntry cellEntry e)) (adjacentEntries (winners placements)) =
      edges placements :=
  (firsts_congr fun _ he _ he' => cellPair_iff_idPair hids he he').symm

/-- No turn is skipped for `lo == hi`. -/
theorem idPair_ne {e : Turn} (he : e ∈ adjacentEntries (winners placements)) :
    (idPair (mapEntry cellEntry e)).1 ≠ (idPair (mapEntry cellEntry e)).2 := by
  obtain ⟨h1, h2, hadj⟩ := mem_adjacentEntries.mp he
  have hne : e.1.2.id ≠ e.2.2.id := fun h => hadj.ne (winner_id_inj hids h1 h2 h)
  show (loHi e.1.2.id e.2.2.id).1 ≠ (loHi e.1.2.id e.2.2.id).2
  unfold loHi
  split
  · exact hne
  · exact hne.symm

end

/-- The row of an edge. -/
def edgeRow (version : String) (mapId : Int) (e : Turn) : EvidenceRow :=
  let label := labelEdge e.1.2.family e.2.2.family
  ⟨mapId, (loHi e.1.2.id e.2.2.id).1, (loHi e.1.2.id e.2.2.id).2, label.state,
    label.ruleSupport.toInt, version⟩

/-- The state of an edge. -/
def edgeState (e : Turn) : EdgeState := (labelEdge e.1.2.family e.2.2.family).state

/-- `neighbors` after an edge. -/
def linkEdge (neighbors : NeighborMap) (e : Turn) : NeighborMap :=
  if edgeState e = .seedValid
  then (neighbors.append e.1.1 e.2.1).append e.2.1 e.1.1 else neighbors

/-- A loop over two variables that do not look at each other. -/
theorem foldl_pair {σ τ ε : Type*} (f : σ → ε → σ) (g : τ → ε → τ) (s : σ) (t : τ) (es : List ε) :
    es.foldl (fun acc e => (f acc.1 e, g acc.2 e)) (s, t) = (es.foldl f s, es.foldl g t) := by
  induction es generalizing s t with
  | nil => rfl
  | cons e es ih => exact ih (f s e) (g t e)

theorem foldl_append_map {ε δ : Type*} (f : ε → δ) (acc : List δ) (es : List ε) :
    es.foldl (fun acc e => acc ++ [f e]) acc = acc ++ es.map f := by
  induction es generalizing acc with
  | nil => exact (List.append_nil acc).symm
  | cons e es ih =>
    rw [List.foldl_cons, ih, List.append_assoc]
    rfl

/-- `counts` after an edge. -/
def countEdge (counts : StateCounts) (e : Turn) : StateCounts := counts.bump (edgeState e)

/-- The counts of the edges. -/
def edgeCounts (es : List Turn) : StateCounts := es.foldl countEdge StateCounts.zero

/-- The neighbours and the counts of the graph, each from the edges. -/
theorem graph_out (placements : List GridPlacement) :
    (buildCellGraph (gridBlocks placements)).neighbors =
        (edges placements).foldl linkEdge Dict.empty ∧
      (buildCellGraph (gridBlocks placements)).counts = edgeCounts (edges placements) := by
  have h := foldl_pair linkEdge countEdge Dict.empty StateCounts.zero (edges placements)
  exact Prod.mk.inj ((buildCellGraph_out placements).trans h)

/-- The evidence rows are the rows of the edges. -/
theorem buildRowsForMap_eq {placements : List GridPlacement}
    (hids : (placements.map (·.id)).Nodup) (version : String) (mapId : Int) :
    buildRowsForMap placements version mapId =
      ((edges placements).map (edgeRow version mapId), edgeCounts (edges placements)) := by
  have hskip : ∀ (init : Finset (Int × Int) × List EvidenceRow × StateCounts),
      (adjacentEntries (cellTo placements)).foldl (rowStep version mapId) init =
        (adjacentEntries (cellTo placements)).foldl
          (seenStep idPair (rowEdge version mapId)) init := by
    intro init
    refine List.foldl_ext _ _ _ fun s e he => ?_
    rw [cellTo_eq, adjacentEntries_mapVal] at he
    obtain ⟨t, ht, rfl⟩ := List.mem_map.mp he
    exact if_neg (idPair_ne hids ht)
  unfold buildRowsForMap
  rw [hskip, cellTo_eq, foldl_turns, firsts_idPair hids]
  have h := foldl_pair (fun acc e => acc ++ [edgeRow version mapId e])
    countEdge [] StateCounts.zero (edges placements)
  rw [foldl_append_map, List.nil_append] at h
  exact h

end TraxMania.Corridor
