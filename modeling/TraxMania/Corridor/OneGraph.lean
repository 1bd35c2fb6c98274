import TraxMania.Corridor.CellEdges

/-
  The three cell graphs are one: the reachability graph, the evidence rows and the index of the
  signal updates have the same winner in every cell and the same edges between them.
-/

namespace TraxMania.Corridor

open TraxMania.Grid Lib

/-! ## The neighbour lists -/

/-- The cell on the other side of a drivable edge. -/
def otherSide (c : Cell) (e : Turn) : Option Cell :=
  if edgeState e = .seedValid then
    if e.1.1 = c then some e.2.1 else if e.2.1 = c then some e.1.1 else none
  else none

theorem otherSide_eq_some {c d : Cell} {e : Turn} :
    otherSide c e = some d ↔ edgeState e = .seedValid ∧
      (e.1.1 = c ∧ e.2.1 = d ∨ e.1.1 ≠ c ∧ e.2.1 = c ∧ e.1.1 = d) := by
  unfold otherSide
  split
  · next hs =>
    split
    · next h1 => simp [hs, h1]
    · next h1 =>
      split
      · next h2 => simp [hs, h1, h2]
      · next h2 => simp [h1, h2]
  · next hs => simp [hs]

theorem linkEdge_of (neighbors : NeighborMap) {e : Turn} (hne : e.1.1 ≠ e.2.1) (c : Cell) :
    (linkEdge neighbors e).of c = neighbors.of c ++ (otherSide c e).toList := by
  unfold linkEdge otherSide
  by_cases hs : edgeState e = .seedValid
  · rw [if_pos hs, if_pos hs]
    by_cases h1 : e.1.1 = c
    · have h2 : c ≠ e.2.1 := fun h => hne (h1.trans h)
      rw [if_pos h1, NeighborMap.of_append_ne _ _ h2, h1, NeighborMap.of_append_self]
      rfl
    · rw [if_neg h1]
      by_cases h2 : e.2.1 = c
      · rw [if_pos h2, h2, NeighborMap.of_append_self, NeighborMap.of_append_ne _ _ (Ne.symm h1)]
        rfl
      · rw [if_neg h2, NeighborMap.of_append_ne _ _ (Ne.symm h2),
          NeighborMap.of_append_ne _ _ (Ne.symm h1)]
        exact (List.append_nil _).symm
  · rw [if_neg hs, if_neg hs]
    exact (List.append_nil _).symm

/-- The list of a cell collects the other sides of its edges. -/
theorem foldl_linkEdge {es : List Turn} (hne : ∀ e ∈ es, e.1.1 ≠ e.2.1)
    (neighbors : NeighborMap) (c : Cell) :
    (es.foldl linkEdge neighbors).of c = neighbors.of c ++ es.filterMap (otherSide c) := by
  induction es generalizing neighbors with
  | nil => exact (List.append_nil _).symm
  | cons e es ih =>
    have hrest : ∀ e' ∈ es, e'.1.1 ≠ e'.2.1 := fun e' he' => hne e' (List.mem_cons_of_mem _ he')
    rw [List.foldl_cons, ih hrest, linkEdge_of _ (hne e List.mem_cons_self), List.append_assoc]
    congr 1
    cases h : otherSide c e with
    | none => rw [List.filterMap_cons_none h]; rfl
    | some d => rw [List.filterMap_cons_some h]; rfl

theorem edge_ne {placements : List GridPlacement} : ∀ e ∈ edges placements, e.1.1 ≠ e.2.1 :=
  fun _ he => (mem_edges he).2.2.ne

/-- The neighbours of a cell. -/
theorem neighbors_eq (placements : List GridPlacement) (c : Cell) :
    (buildCellGraph (gridBlocks placements)).neighbors.of c =
      (edges placements).filterMap (otherSide c) := by
  rw [(graph_out placements).1, foldl_linkEdge edge_ne]
  rfl

/-- Both placements that stand for the cells carry the car. -/
def BothDrivable (placements : List GridPlacement) (c d : Cell) : Prop :=
  ∃ p q, winner placements c = some p ∧ winner placements d = some q ∧
    p.bucket = .drivable ∧ q.bucket = .drivable

theorem BothDrivable.symm {placements : List GridPlacement} {c d : Cell}
    (h : BothDrivable placements c d) : BothDrivable placements d c := by
  obtain ⟨p, q, hp, hq, hpd, hqd⟩ := h
  exact ⟨q, p, hq, hp, hqd, hpd⟩

/-- The neighbours are the adjacent cells with a drivable winner on both sides. -/
theorem mem_neighbors {placements : List GridPlacement} {c d : Cell} :
    d ∈ (buildCellGraph (gridBlocks placements)).neighbors.of c ↔
      AxisAdjacent c d ∧ BothDrivable placements c d := by
  rw [neighbors_eq, List.mem_filterMap]
  constructor
  · rintro ⟨e, he, hside⟩
    obtain ⟨hw1, hw2, hadj⟩ := mem_edges he
    obtain ⟨hs, hcd⟩ := otherSide_eq_some.mp hside
    obtain ⟨hb1, hb2⟩ := labelEdge_seedValid.mp hs
    rcases hcd with ⟨rfl, rfl⟩ | ⟨-, rfl, rfl⟩
    · exact ⟨hadj, _, _, hw1, hw2, hb1, hb2⟩
    · exact ⟨hadj.symm, _, _, hw2, hw1, hb2, hb1⟩
  · rintro ⟨hadj, p, q, hp, hq, hpd, hqd⟩
    rcases exists_edge hp hq hadj with he | he
    · refine ⟨_, he, otherSide_eq_some.mpr ⟨labelEdge_seedValid.mpr ⟨hpd, hqd⟩, ?_⟩⟩
      exact Or.inl ⟨rfl, rfl⟩
    · refine ⟨_, he, otherSide_eq_some.mpr ⟨labelEdge_seedValid.mpr ⟨hqd, hpd⟩, ?_⟩⟩
      exact Or.inr ⟨hadj.ne.symm, rfl, rfl⟩

/-- Two edges with the same side across from a cell are between the same cells. -/
theorem cellPair_of_otherSide {c d : Cell} {e : Turn} (h : otherSide c e = some d) :
    cellPair e = (min c d, max c d) := by
  unfold cellPair
  rcases (otherSide_eq_some.mp h).2 with ⟨rfl, rfl⟩ | ⟨-, rfl, rfl⟩
  · rfl
  · rw [min_comm, max_comm]

theorem neighbors_nodup (placements : List GridPlacement) (c : Cell) :
    ((buildCellGraph (gridBlocks placements)).neighbors.of c).Nodup := by
  rw [neighbors_eq]
  refine List.Pairwise.filterMap (otherSide c) ?_ (edges_pairwise placements)
  intro e e' hne d hd d' hd' hdd
  subst hdd
  exact hne ((cellPair_of_otherSide hd).trans (cellPair_of_otherSide hd').symm)

/-! ## The rows -/

/-- The evidence rows of a map. -/
def evidenceRows (placements : List GridPlacement) (version : String) (mapId : Int) :
    List EvidenceRow := (buildRowsForMap placements version mapId).1

/-- The rows of one pair of placement ids. -/
def rowsOf (rows : List EvidenceRow) (a b : Int) : List EvidenceRow :=
  rows.filter fun r => decide ((r.srcBlockId, r.dstBlockId) = loHi a b)

section

variable {placements : List GridPlacement} (hids : (placements.map (·.id)).Nodup)
  (version : String) (mapId : Int)

include hids

/-- An edge has its row, and no other edge has it. -/
theorem rowsOf_edge {e : Turn} (he : e ∈ edges placements) :
    rowsOf (evidenceRows placements version mapId) e.1.2.id e.2.2.id =
      [edgeRow version mapId e] := by
  have hpair : (edges placements).Pairwise fun e e' =>
      idPair (mapEntry cellEntry e) ≠ idPair (mapEntry cellEntry e') := by
    rw [← firsts_idPair hids]
    exact firsts_pairwise _ _
  unfold rowsOf evidenceRows
  rw [buildRowsForMap_eq hids, List.filter_map]
  rw [filter_key_eq hpair he _ fun e' _ => by rw [Function.comp_apply, decide_eq_true_iff]; rfl]
  rfl

/-- The row of two adjacent occupied cells. -/
theorem rowsOf_adjacent {c d : Cell} {p q : GridPlacement} (hp : winner placements c = some p)
    (hq : winner placements d = some q) (hadj : AxisAdjacent c d) :
    rowsOf (evidenceRows placements version mapId) p.id q.id =
      [edgeRow version mapId ((c, p), (d, q))] := by
  rcases exists_edge hp hq hadj with he | he
  · exact rowsOf_edge hids version mapId he
  · have hcomm : loHi q.id p.id = loHi p.id q.id := by
      rw [loHi_eq, loHi_eq, min_comm, max_comm]
    have h := rowsOf_edge hids version mapId he
    unfold rowsOf at h ⊢
    unfold edgeRow at h ⊢
    rw [hcomm, labelEdge_comm] at h
    exact h

theorem mem_evidenceRows {r : EvidenceRow} (hr : r ∈ evidenceRows placements version mapId) :
    ∃ e ∈ edges placements, edgeRow version mapId e = r := by
  unfold evidenceRows at hr
  rw [buildRowsForMap_eq hids] at hr
  exact List.mem_map.mp hr

end

/-- What the three parts agree on. -/
structure OneGraph (placements : List GridPlacement) (version : String) (mapId : Int) : Prop where
  /-- The three dictionaries hold the same winner in every cell. -/
  graph_winner : ∀ c, (cellToFamily (gridBlocks placements)).get? c =
    (winner placements c).map (·.family)
  evidence_winner : ∀ c, (cellTo placements).get? c =
    (winner placements c).map fun p => (p.id, p.family, p.bucket)
  index_winner : ∀ c, (cellToPlacementMap placements).get? c = (winner placements c).map (·.id)
  /-- A row is of two adjacent occupied cells; -/
  row_adjacent : ∀ r ∈ evidenceRows placements version mapId, ∃ c d p q, AxisAdjacent c d ∧
    winner placements c = some p ∧ winner placements d = some q ∧
    (r.srcBlockId, r.dstBlockId) = loHi p.id q.id
  /-- and two such cells have exactly one row, with the state that the graph gives the edge. -/
  adjacent_row : ∀ c d p q, AxisAdjacent c d → winner placements c = some p →
    winner placements d = some q →
    ∃ f g, (cellToFamily (gridBlocks placements)).get? c = some f ∧
      (cellToFamily (gridBlocks placements)).get? d = some g ∧
      rowsOf (evidenceRows placements version mapId) p.id q.id =
        [⟨mapId, (loHi p.id q.id).1, (loHi p.id q.id).2, (labelEdge f g).state,
          (labelEdge f g).ruleSupport.toInt, version⟩]
  counts : (buildRowsForMap placements version mapId).2 =
    (buildCellGraph (gridBlocks placements)).counts
  neighbors : ∀ c d, d ∈ (buildCellGraph (gridBlocks placements)).neighbors.of c ↔
    AxisAdjacent c d ∧ BothDrivable placements c d
  neighbors_symm : ∀ c d, d ∈ (buildCellGraph (gridBlocks placements)).neighbors.of c →
    c ∈ (buildCellGraph (gridBlocks placements)).neighbors.of d
  neighbors_nodup : ∀ c, ((buildCellGraph (gridBlocks placements)).neighbors.of c).Nodup
  /-- A step between two neighbours has exactly one row, found by the ids of the index. -/
  step_row : ∀ c d, d ∈ (buildCellGraph (gridBlocks placements)).neighbors.of c →
    ∃ a b r, (cellToPlacementMap placements).get? c = some a ∧
      (cellToPlacementMap placements).get? d = some b ∧
      rowsOf (evidenceRows placements version mapId) a b = [r] ∧
      r.traversabilityState = .seedValid

/-- The three cell graphs of a map are one graph. -/
theorem one_graph {placements : List GridPlacement} (hids : (placements.map (·.id)).Nodup)
    (version : String) (mapId : Int) : OneGraph placements version mapId where
  graph_winner := get?_cellToFamily placements
  evidence_winner := get?_cellTo placements
  index_winner := get?_cellToPlacementMap placements
  row_adjacent := by
    intro r hr
    obtain ⟨e, he, rfl⟩ := mem_evidenceRows hids version mapId hr
    obtain ⟨hw1, hw2, hadj⟩ := mem_edges he
    exact ⟨_, _, _, _, hadj, hw1, hw2, rfl⟩
  adjacent_row := by
    intro c d p q hadj hp hq
    refine ⟨p.family, q.family, ?_, ?_, ?_⟩
    · rw [get?_cellToFamily, hp]
      rfl
    · rw [get?_cellToFamily, hq]
      rfl
    · exact rowsOf_adjacent hids version mapId hp hq hadj
  counts := by rw [buildRowsForMap_eq hids, (graph_out placements).2]
  neighbors := fun _ _ => mem_neighbors
  neighbors_symm := by
    intro c d h
    obtain ⟨hadj, hboth⟩ := mem_neighbors.mp h
    exact mem_neighbors.mpr ⟨hadj.symm, hboth.symm⟩
  neighbors_nodup := neighbors_nodup placements
  step_row := by
    intro c d h
    obtain ⟨hadj, p, q, hp, hq, hpd, hqd⟩ := mem_neighbors.mp h
    refine ⟨p.id, q.id, _, ?_, ?_, rowsOf_adjacent hids version mapId hp hq hadj, ?_⟩
    · rw [get?_cellToPlacementMap, hp]
      rfl
    · rw [get?_cellToPlacementMap, hq]
      rfl
    · exact labelEdge_seedValid.mpr ⟨hpd, hqd⟩

/-- A road laid over a structure, and a road next to it. -/
def layeredPlacements : List GridPlacement :=
  [⟨11, ⟨0, 0, 0⟩, "Structure"⟩, ⟨12, ⟨1, 0, 0⟩, "Road"⟩, ⟨13, ⟨0, 0, 0⟩, "Road"⟩]

theorem one_graph_layered : OneGraph layeredPlacements classificationVersion 7 :=
  one_graph (by decide) classificationVersion 7

end TraxMania.Corridor
