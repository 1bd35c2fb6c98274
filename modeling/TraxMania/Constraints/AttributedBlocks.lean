import TraxMania.Constraints.BlockTransitions
import TraxMania.Corridor.OneGraph

/-
  `constraints/sequence_scoring.py`, the bulk scorer: the score of a corridor out of the scores of
  its pairs of blocks. What a pair scores (`score_pair`) is left open.

  Which block of a cell the transition counter and the scorer speak of: both keep the last row of
  their own SELECT, which has no order; the corridor graph keeps the first of the best bucket. The
  two are the same under every row order exactly for a cell whose placements are all of one block.
-/

namespace TraxMania.Constraints

open TraxMania.Generation TraxMania.Grid Lib Lib.Enumerate Lib.Txn TraxMania.Corridor

/-! ## What is read -/

/-- A row of `_CORRIDORS_FOR_SCORING_SQL`. -/
structure CorridorForScoring where
  id : Int
  mapId : Int
  environment : String
  pathCells : String

/-- The cell map of a map: the last placement at a cell counts, and `int(None)` raises. -/
def cellToBlock (placements : List PlacementRow) :
    Except PyError (Dict Cell (String × String)) :=
  placements.foldlM (fun out p =>
    match p.x, p.y, p.z with
    | some x, some y, some z =>
      .ok (out.upsert ⟨x, y, z⟩ fun _ => (p.blockFamily, p.blockType))
    | _, _, _ => .error .typeError) Dict.empty

/-- One turn of the comprehension over the path: an entry that is no triple is left out. -/
def pathTuple (py : Python) : Json → Except PyError (Option Cell)
  | .arr [a, b, c] => (tripleToCell py a b c).map some
  | _ => .ok none

/-- `path_tuples`: none at all when one entry, or the text, raises `TypeError` or `ValueError`. -/
def pathTuples (py : Python) (raw : String) : Except PyError (List Cell) :=
  let path := do
    let data ← py.loads raw
    let entries ← data.iterate
    (collect (fun _ => pathTuple py) 0 entries).map List.reduceOption
  match path with
  | .error .typeError => .ok []
  | .error .valueError => .ok []
  | .error .jsonDecodeError => .ok []
  | out => out

/-! ## Scores -/

section

variable {σ : Type} (scorePair : PairKey → σ) (average : List σ → σ)

/-- `score_corridor_path(conn, path_cells=…, cell_to_block=…, environment=…)`. -/
def scoreCorridorPath (blockAt : Cell → Option (String × String)) (environment : String)
    (cells : List Cell) : Option σ :=
  if cells.length < 2 then none
  else
    let scores := (pairKeys blockAt environment cells).map scorePair
    if scores.isEmpty then none else some (average scores)

/-- `counts`. -/
structure ScoreCounts where
  corridorsSeen : Nat
  scored : Nat
  nullScores : Nat
deriving DecidableEq

/-- `combined_sequence_score` of the rows of `route_corridors`. -/
abbrev SequenceScores (σ : Type) := Dict Int (Option σ)

/-- One turn of the loop over the corridors of a map. -/
def scoreCorridor (py : Python) (blockAt : Cell → Option (String × String)) (counts : ScoreCounts)
    (row : CorridorForScoring) : Conn BuildError (SequenceScores σ) ScoreCounts := do
  match pathTuples py row.pathCells with
  | .error e => throw (.python e)
  | .ok cells =>
    let score := scoreCorridorPath scorePair average blockAt row.environment cells
    exec fun d => .ok (d.upsert row.id fun _ => score)
    match score with
    | none => return { counts with nullScores := counts.nullScores + 1 }
    | some _ => return { counts with scored := counts.scored + 1 }

/-- The corridors of one map. -/
def scoreCorridors (py : Python) (blockAt : Cell → Option (String × String)) :
    List CorridorForScoring → ScoreCounts → Conn BuildError (SequenceScores σ) ScoreCounts
  | [], counts => return counts
  | row :: rows, counts => do
    let counts ← scoreCorridor scorePair average py blockAt counts row
    scoreCorridors py blockAt rows counts

/-- One turn of the loop over the maps. -/
def scoreMap (py : Python) (placements : Int → List PlacementRow) (counts : ScoreCounts)
    (mapId : Int) (rows : List CorridorForScoring) :
    Conn BuildError (SequenceScores σ) ScoreCounts := do
  let placed ← select fun _ => placements mapId
  match cellToBlock placed with
  | .error e => throw (.python e)
  | .ok cells =>
    let counts ← scoreCorridors scorePair average py cells.get? rows counts
    commit
    return counts

/-- `for mid, corridors in by_map.items()`. -/
def scoreMaps (py : Python) (placements : Int → List PlacementRow) :
    List (Int × List CorridorForScoring) → ScoreCounts →
      Conn BuildError (SequenceScores σ) ScoreCounts
  | [], counts => return counts
  | (mapId, rows) :: rest, counts => do
    let counts ← scoreMap scorePair average py placements counts mapId rows
    scoreMaps py placements rest counts

/-- `rows[:int(limit)]`, for a limit that is not zero. -/
def sliceTo {ρ : Type} (rows : List ρ) (limit : Option Int) : List ρ :=
  match limit with
  | none => rows
  | some n =>
    if n = 0 then rows
    else if n < 0 then rows.take (rows.length - n.natAbs)
    else rows.take n.toNat

/-- `by_map`. -/
def corridorsByMap (rows : List CorridorForScoring) : Dict Int (List CorridorForScoring) :=
  rows.foldl (fun acc r => acc.upsert r.mapId fun old => old.getD [] ++ [r]) Dict.empty

/-- `score_all_corridors(conn, map_id=…, limit=…)`, on the rows that its first statement finds. -/
def scoreAllCorridors (py : Python) (placements : Int → List PlacementRow)
    (rows : List CorridorForScoring) (limit : Option Int) :
    Conn BuildError (SequenceScores σ) ScoreCounts := do
  let rows ← select fun _ => sliceTo rows limit
  scoreMaps scorePair average py placements (corridorsByMap rows).items ⟨rows.length, 0, 0⟩

end

/-! ## The three readers -/

/-- A grid placement of a map, with what the three readers take of it. -/
structure PlacedBlock where
  id : Int
  cell : Cell
  blockFamily : String
  blockType : String
deriving DecidableEq

namespace PlacedBlock

/-- `(block_family, block_type)`. -/
def block (b : PlacedBlock) : String × String := (b.blockFamily, b.blockType)

/-- The row as the counter and the scorer fetch it. -/
def row (b : PlacedBlock) : PlacementRow :=
  ⟨b.blockFamily, b.blockType, some b.cell.x, some b.cell.y, some b.cell.z⟩

/-- The row as the corridor graph fetches it. -/
def gridPlacement (b : PlacedBlock) : GridPlacement := ⟨b.id, b.cell, b.blockFamily⟩

/-- The placement is of a family that carries the car. -/
def Drivable (b : PlacedBlock) : Prop := classifyFamily b.blockFamily = .drivable

end PlacedBlock

variable {placements rows : List PlacedBlock}

/-! ## The last placement of a cell -/

/-- The last row at the cell. -/
def lastAt (rows : List PlacedBlock) (c : Cell) : Option PlacedBlock :=
  (rows.filter fun b => decide (b.cell = c)).getLast?

theorem lastAt_mem {c : Cell} {b : PlacedBlock} (h : lastAt rows c = some b) :
    b ∈ rows ∧ b.cell = c := by
  have hmem : b ∈ rows.filter fun b => decide (b.cell = c) := List.mem_of_getLast? h
  rw [List.mem_filter] at hmem
  exact ⟨hmem.1, of_decide_eq_true hmem.2⟩

theorem lastAt_concat (rows : List PlacedBlock) (b : PlacedBlock) :
    lastAt (rows ++ [b]) b.cell = some b := by
  unfold lastAt
  rw [List.filter_append, List.filter_cons_of_pos (by simp), List.filter_nil,
    List.getLast?_concat]

theorem exists_lastAt {b : PlacedBlock} (hb : b ∈ rows) : ∃ b', lastAt rows b.cell = some b' := by
  have hmem : b ∈ rows.filter fun b' => decide (b'.cell = b.cell) :=
    List.mem_filter.mpr ⟨hb, by simp⟩
  exact ⟨_, List.getLast?_eq_some_getLast (List.ne_nil_of_mem hmem)⟩

/-- A placement is the last of its cell in some order of the rows. -/
theorem exists_order_ending {b : PlacedBlock} (hb : b ∈ placements) :
    ∃ rows, rows.Perm placements ∧ lastAt rows b.cell = some b := by
  refine ⟨placements.erase b ++ [b], ?_, lastAt_concat _ _⟩
  exact (List.perm_append_singleton b _).trans (List.perm_cons_erase hb).symm

/-- `_fetch_blocks_by_cell` keeps the last placement of a cell. -/
theorem get?_blocksByCell (rows : List PlacedBlock) (c : Cell) :
    (blocksByCell (rows.map PlacedBlock.row)).get? c = (lastAt rows c).map PlacedBlock.block := by
  unfold blocksByCell
  rw [List.foldl_map]
  exact Dict.get?_foldl_overwrite rows c

/-- The scorer's dictionary is the same. -/
theorem cellToBlock_row (rows : List PlacedBlock) :
    cellToBlock (rows.map PlacedBlock.row) = .ok (blocksByCell (rows.map PlacedBlock.row)) := by
  unfold cellToBlock blocksByCell
  rw [List.foldlM_map, List.foldl_map]
  induction rows using List.reverseRecOn with
  | nil => rfl
  | append_singleton rows b ih =>
    rw [List.foldlM_append, ih, List.foldl_append]
    rfl

/-! ## The pairs of a path -/

/-- The pair of one step: there is one when both cells have a block. -/
theorem mem_pairKeys_step {blockAt : Cell → Option (String × String)} {environment : String}
    {c d : Cell} {k : PairKey} :
    k ∈ pairKeys blockAt environment [c, d] ↔
      ∃ a b, blockAt c = some a ∧ blockAt d = some b ∧ k = ⟨a.1, a.2, b.1, b.2, environment⟩ := by
  unfold pairKeys
  rw [List.mem_filterMap]
  constructor
  · rintro ⟨s, hs, hk⟩
    obtain rfl : s = (c, d) := List.mem_singleton.mp hs
    obtain ⟨a, ha, hk⟩ := Option.bind_eq_some_iff.mp hk
    obtain ⟨b, hb, hk⟩ := Option.bind_eq_some_iff.mp hk
    exact ⟨a, b, ha, hb, (Option.some.inj hk).symm⟩
  · rintro ⟨a, b, ha, hb, rfl⟩
    refine ⟨(c, d), List.mem_singleton.mpr rfl, ?_⟩
    simp only [ha, hb]
    rfl

/-- The pairs of a path are those of its steps. -/
theorem pairKeys_eq_flatMap (blockAt : Cell → Option (String × String)) (environment : String)
    (cells : List Cell) :
    pairKeys blockAt environment cells =
      (cells.zip cells.tail).flatMap fun s => pairKeys blockAt environment [s.1, s.2] := by
  unfold pairKeys
  rw [List.filterMap_eq_flatMap_toList]
  refine List.flatMap_congr fun s _ => ?_
  show _ = List.filterMap _ [(s.1, s.2)]
  rw [List.filterMap_eq_flatMap_toList, List.flatMap_singleton]

/-! ## Against the corridor graph -/

/-- The placements of the cell are all of one block. -/
def OneBlock (placements : List PlacedBlock) (c : Cell) : Prop :=
  ∀ p ∈ placements, ∀ q ∈ placements, p.cell = c → q.cell = c → p.block = q.block

/-- The rows of the corridor graph. -/
def graphRows (rows : List PlacedBlock) : List GridPlacement := rows.map PlacedBlock.gridPlacement

/-- The placement whose id the graph keeps for a cell. -/
def Wins (rows : List PlacedBlock) (c : Cell) (b : PlacedBlock) : Prop :=
  b ∈ rows ∧ (cellToPlacementMap (graphRows rows)).get? c = some b.id

theorem winner_graphRows {c : Cell} {p : GridPlacement}
    (h : winner (graphRows rows) c = some p) : ∃ b ∈ rows, b.cell = c ∧ b.gridPlacement = p := by
  obtain ⟨hmem, hc⟩ := winner_mem h
  obtain ⟨b, hb, rfl⟩ := List.mem_map.mp hmem
  exact ⟨b, hb, hc, rfl⟩

/-- The id of the graph is that of a placement of the cell. -/
theorem Wins.cell_eq (hids : (rows.map (·.id)).Nodup) {c : Cell} {b : PlacedBlock}
    (h : Wins rows c b) : b.cell = c := by
  obtain ⟨hb, hid⟩ := h
  rw [get?_cellToPlacementMap, Option.map_eq_some_iff] at hid
  obtain ⟨p, hp, hid⟩ := hid
  obtain ⟨b', hb', hc, rfl⟩ := winner_graphRows hp
  have heq : b' = b := List.inj_on_of_nodup_map hids hb' hb hid
  rw [← heq]
  exact hc

theorem exists_wins {b : PlacedBlock} (hb : b ∈ rows) : ∃ w, Wins rows b.cell w := by
  have hlayer : b.gridPlacement ∈ layers (graphRows rows) b.cell := by
    unfold layers
    exact List.mem_filter.mpr ⟨List.mem_map_of_mem hb, by simp [PlacedBlock.gridPlacement]⟩
  cases h : winner (graphRows rows) b.cell with
  | none =>
    have hnil : layers (graphRows rows) b.cell = [] := List.argmax_eq_none.mp h
    rw [hnil] at hlayer
    exact absurd hlayer List.not_mem_nil
  | some p =>
    obtain ⟨w, hw, -, rfl⟩ := winner_graphRows h
    refine ⟨w, hw, ?_⟩
    rw [get?_cellToPlacementMap, h]
    rfl

/-- A step between two neighbours has a placement at either end. -/
theorem exists_placed_of_neighbor {c d : Cell}
    (h : d ∈ (buildCellGraph (gridBlocks (graphRows rows))).neighbors.of c) :
    (∃ b ∈ rows, b.cell = c) ∧ ∃ b ∈ rows, b.cell = d := by
  obtain ⟨-, p, q, hp, hq, -⟩ := mem_neighbors.mp h
  obtain ⟨a, ha, hac, -⟩ := winner_graphRows hp
  obtain ⟨b, hb, hbd, -⟩ := winner_graphRows hq
  exact ⟨⟨a, ha, hac⟩, b, hb, hbd⟩

/-- The winner of a cell of one block has that block, so all its placements are drivable when a
    seed edge leaves the cell. -/
theorem drivable_of_neighbor {c d : Cell} (hone : OneBlock rows c)
    (h : d ∈ (buildCellGraph (gridBlocks (graphRows rows))).neighbors.of c) :
    ∀ b ∈ rows, b.cell = c → b.Drivable := by
  intro b hb hbc
  obtain ⟨-, p, q, hp, -, hdrivable, -⟩ := mem_neighbors.mp h
  obtain ⟨a, ha, hac, rfl⟩ := winner_graphRows hp
  have hblock : a.block = b.block := hone a ha b hb hac hbc
  have hfamily : a.blockFamily = b.blockFamily := congrArg Prod.fst hblock
  unfold PlacedBlock.Drivable
  rw [← hfamily]
  exact hdrivable

/-! ## The row orders -/

theorem OneBlock.perm {c : Cell} (h : OneBlock placements c) (hrows : rows.Perm placements) :
    OneBlock rows c :=
  fun p hp q hq => h p (hrows.mem_iff.mp hp) q (hrows.mem_iff.mp hq)

/-- With these row orders the counter and the scorer give a cell the block of its winner. -/
def SpeakOfWinner (counterRows scorerRows graph : List PlacedBlock) (c : Cell) : Prop :=
  ∀ b, Wins graph c b →
    (blocksByCell (counterRows.map PlacedBlock.row)).get? c = some b.block ∧
    ∃ cells, cellToBlock (scorerRows.map PlacedBlock.row) = .ok cells ∧
      cells.get? c = some b.block

theorem speakOfWinner_iff {placements : List PlacedBlock}
    (hids : (placements.map (·.id)).Nodup) (c : Cell) :
    (∀ counterRows scorerRows graph : List PlacedBlock, counterRows.Perm placements →
      scorerRows.Perm placements → graph.Perm placements →
        SpeakOfWinner counterRows scorerRows graph c) ↔
      OneBlock placements c := by
  constructor
  · intro h
    -- whichever placement comes last, its block is that of the winner
    have hlast : ∀ p ∈ placements, p.cell = c → ∀ w, Wins placements c w → p.block = w.block := by
      intro p hp hpc w hw
      obtain ⟨rows, hrows, hend⟩ := exists_order_ending hp
      have hspeak := (h rows rows placements hrows hrows (List.Perm.refl _) w hw).1
      rw [get?_blocksByCell, ← hpc, hend] at hspeak
      exact Option.some.inj hspeak
    intro p hp q hq hpc hqc
    obtain ⟨w, hw⟩ := exists_wins hp
    rw [hpc] at hw
    exact (hlast p hp hpc w hw).trans (hlast q hq hqc w hw).symm
  · intro hone counterRows scorerRows graph hcounter hscorer hgraph w hw
    have hwc : w.cell = c :=
      hw.cell_eq ((hgraph.map fun b : PlacedBlock => b.id).nodup_iff.mpr hids)
    have hwp : w ∈ placements := hgraph.mem_iff.mp hw.1
    -- every order ends the cell with that block
    have hlast : ∀ rows : List PlacedBlock, rows.Perm placements →
        (blocksByCell (rows.map PlacedBlock.row)).get? c = some w.block := by
      intro rows hrows
      obtain ⟨b, hb⟩ := exists_lastAt (hrows.mem_iff.mpr hwp)
      rw [hwc] at hb
      obtain ⟨hbr, hbc⟩ := lastAt_mem hb
      rw [get?_blocksByCell, hb, Option.map_some, hone b (hrows.mem_iff.mp hbr) w hwp hbc hwc]
    exact ⟨hlast counterRows hcounter, _, cellToBlock_row scorerRows, hlast scorerRows hscorer⟩

/-- Both blocks of the pair are of families that carry the car. -/
def PairKey.Drivable (k : PairKey) : Prop :=
  classifyFamily k.familyA = .drivable ∧ classifyFamily k.familyB = .drivable

/-- The pairs that a reader finds on a step. -/
theorem mem_stepPairs {c d : Cell} {environment : String} {k : PairKey} :
    k ∈ pairKeys (blocksByCell (rows.map PlacedBlock.row)).get? environment [c, d] ↔
      ∃ a b, lastAt rows c = some a ∧ lastAt rows d = some b ∧
        k = ⟨a.blockFamily, a.blockType, b.blockFamily, b.blockType, environment⟩ := by
  rw [mem_pairKeys_step]
  simp only [get?_blocksByCell, Option.map_eq_some_iff]
  constructor
  · rintro ⟨_, _, ⟨a, ha, rfl⟩, ⟨b, hb, rfl⟩, rfl⟩
    exact ⟨a, b, ha, hb, rfl⟩
  · rintro ⟨a, b, ha, hb, rfl⟩
    exact ⟨_, _, ⟨a, ha, rfl⟩, ⟨b, hb, rfl⟩, rfl⟩

/-- A seed step is counted as a drivable pair under every row order exactly when all the placements
    of its two cells are drivable. -/
theorem stepPairs_drivable_iff {graph : List PlacedBlock} (hgraph : graph.Perm placements)
    {c d : Cell} (hstep : d ∈ (buildCellGraph (gridBlocks (graphRows graph))).neighbors.of c) :
    (∀ rows : List PlacedBlock, rows.Perm placements → ∀ environment,
      ∀ k ∈ pairKeys (blocksByCell (rows.map PlacedBlock.row)).get? environment [c, d],
        k.Drivable) ↔
      ∀ b ∈ placements, b.cell = c ∨ b.cell = d → b.Drivable := by
  constructor
  · intro h b hb hcell
    obtain ⟨rows, hrows, hend⟩ := exists_order_ending hb
    have hplaced : ∀ e, (∃ p ∈ graph, p.cell = e) → ∃ p, lastAt rows e = some p := by
      rintro e ⟨p, hp, rfl⟩
      exact exists_lastAt (hrows.mem_iff.mpr (hgraph.mem_iff.mp hp))
    obtain ⟨hc, hd⟩ := exists_placed_of_neighbor hstep
    rcases hcell with rfl | rfl
    · obtain ⟨p, hp⟩ := hplaced d hd
      exact (h rows hrows "" _ (mem_stepPairs.mpr ⟨b, p, hend, hp, rfl⟩)).1
    · obtain ⟨p, hp⟩ := hplaced c hc
      exact (h rows hrows "" _ (mem_stepPairs.mpr ⟨p, b, hp, hend, rfl⟩)).2
  · intro h rows hrows environment k hk
    obtain ⟨a, b, ha, hb, rfl⟩ := mem_stepPairs.mp hk
    obtain ⟨har, hac⟩ := lastAt_mem ha
    obtain ⟨hbr, hbd⟩ := lastAt_mem hb
    exact ⟨h a (hrows.mem_iff.mp har) (.inl hac), h b (hrows.mem_iff.mp hbr) (.inr hbd)⟩

/-- What the counter and the scorer know of the cells of a map, whatever the row orders. -/
structure AttributedBlocks (placements : List PlacedBlock) : Prop where
  /-- Each keeps the last placement of a cell in its own order; -/
  counter_last : ∀ rows : List PlacedBlock, rows.Perm placements → ∀ c,
    (blocksByCell (rows.map PlacedBlock.row)).get? c = (lastAt rows c).map PlacedBlock.block
  scorer_last : ∀ rows : List PlacedBlock, rows.Perm placements →
    cellToBlock (rows.map PlacedBlock.row) = .ok (blocksByCell (rows.map PlacedBlock.row))
  /-- that is the winner's block for all orders exactly for a cell of one block. -/
  winner_iff : ∀ c, (∀ counterRows scorerRows graph : List PlacedBlock,
    counterRows.Perm placements → scorerRows.Perm placements → graph.Perm placements →
      SpeakOfWinner counterRows scorerRows graph c) ↔ OneBlock placements c
  /-- The pairs of a path are those of its steps, -/
  path_pairs : ∀ blockAt environment cells, pairKeys blockAt environment cells =
    (cells.zip cells.tail).flatMap fun s => pairKeys blockAt environment [s.1, s.2]
  /-- and that of a seed step is drivable for all orders exactly when both cells are drivable
      throughout, -/
  step_iff : ∀ graph : List PlacedBlock, graph.Perm placements → ∀ c d,
    d ∈ (buildCellGraph (gridBlocks (graphRows graph))).neighbors.of c →
      ((∀ rows : List PlacedBlock, rows.Perm placements → ∀ environment,
        ∀ k ∈ pairKeys (blocksByCell (rows.map PlacedBlock.row)).get? environment [c, d],
          k.Drivable) ↔
        ∀ b ∈ placements, b.cell = c ∨ b.cell = d → b.Drivable)
  /-- as they are when each is of one block. -/
  one_block_drivable : ∀ graph : List PlacedBlock, graph.Perm placements → ∀ c d,
    d ∈ (buildCellGraph (gridBlocks (graphRows graph))).neighbors.of c →
      OneBlock placements c → OneBlock placements d →
      ∀ b ∈ placements, b.cell = c ∨ b.cell = d → b.Drivable

theorem attributed_blocks {placements : List PlacedBlock}
    (hids : (placements.map (·.id)).Nodup) : AttributedBlocks placements where
  counter_last := fun rows _ => get?_blocksByCell rows
  scorer_last := fun rows _ => cellToBlock_row rows
  winner_iff := speakOfWinner_iff hids
  path_pairs := pairKeys_eq_flatMap
  step_iff := fun _ hgraph _ _ hstep => stepPairs_drivable_iff hgraph hstep
  one_block_drivable := by
    intro graph hgraph c d hstep hc hd b hb hcell
    have hback : c ∈ (buildCellGraph (gridBlocks (graphRows graph))).neighbors.of d := by
      obtain ⟨hadj, hboth⟩ := mem_neighbors.mp hstep
      exact mem_neighbors.mpr ⟨hadj.symm, hboth.symm⟩
    rcases hcell with hbc | hbd
    · exact drivable_of_neighbor (hc.perm hgraph) hstep b (hgraph.mem_iff.mpr hb) hbc
    · exact drivable_of_neighbor (hd.perm hgraph) hback b (hgraph.mem_iff.mpr hb) hbd

/-- A road on a pillar, next to another road. -/
def roadOnPillar : List PlacedBlock :=
  [⟨1, ⟨0, 0, 0⟩, "Road", "RoadTechStraight"⟩, ⟨2, ⟨0, 0, 0⟩, "Structure", "StructurePillar"⟩,
   ⟨3, ⟨1, 0, 0⟩, "Road", "RoadTechStraight"⟩]

theorem attributed_blocks_pillar : AttributedBlocks roadOnPillar :=
  attributed_blocks (by decide)

/-- The step between the two roads is a seed edge, and both readers take the pillar for the block
    that is driven. -/
theorem pillar_counted :
    (⟨1, 0, 0⟩ : Cell) ∈
      (buildCellGraph (gridBlocks (graphRows roadOnPillar))).neighbors.of ⟨0, 0, 0⟩ ∧
    Wins roadOnPillar ⟨0, 0, 0⟩ ⟨1, ⟨0, 0, 0⟩, "Road", "RoadTechStraight"⟩ ∧
    pairKeys (blocksByCell (roadOnPillar.map PlacedBlock.row)).get? "Stadium"
      [⟨0, 0, 0⟩, ⟨1, 0, 0⟩] =
      [⟨"Structure", "StructurePillar", "Road", "RoadTechStraight", "Stadium"⟩] ∧
    ¬ SpeakOfWinner roadOnPillar roadOnPillar roadOnPillar ⟨0, 0, 0⟩ := by
  have hwins : Wins roadOnPillar ⟨0, 0, 0⟩ ⟨1, ⟨0, 0, 0⟩, "Road", "RoadTechStraight"⟩ :=
    ⟨by decide, by decide +kernel⟩
  refine ⟨by decide +kernel, hwins, by decide +kernel, fun h => ?_⟩
  have hroad := (h _ hwins).1
  revert hroad
  decide +kernel

end TraxMania.Constraints
