import TraxMania.Generation.RejectionArtifact

/-
  The stripped map file: the cells that `emit_gbx_from_artifact` hands on, the filter that the C#
  emitter runs over the blocks of the base file, and that what is left are the artifact's blocks.
-/

namespace TraxMania.Generation.Generator

open TraxMania.Grid Route Validation Strip Ai

/-! ## The cells that are handed on -/

section Cells

variable {σ : Type}

/-- `keep_cells` of `emit_gbx_from_artifact`: the cells of the blocks and of the checkpoints of a
    stripped artifact. -/
def keepCells (g : GeneratedMap σ) : Option (List Cell) :=
  if g.stripped.isSome then some (g.blocks.map MapBlock.cell ++ g.checkpoints.map MapCheckpoint.cell)
  else none

/-- The `keep_cells` of the payload of `emit_map`. -/
def payloadCells (cells : Option (List Cell)) : Option (List (List Int)) :=
  cells.map fun cells => cells.map fun c => [c.x, c.y, c.z]

end Cells

/-! ## The emitter -/

/-- A `CGameCtnBlock`: whether it is free, and what the map parser stores of it; its `Coord` is the
    cell. -/
structure FileBlock where
  isFree : Bool
  block : MapBlock
deriving DecidableEq

/-- The counts that `EmitFromStdinJson` reports. -/
structure EmitOutput where
  blockCount : Nat
  sourceBlockCount : Nat
  removedBlockCount : Nat
deriving DecidableEq

/-- `keep`: an entry that is no triple is passed over. -/
def keepSet (keepCells : List (List Int)) : List Cell :=
  keepCells.filterMap fun c =>
    match c with
    | [x, y, z] => some ⟨x, y, z⟩
    | _ => none

/-- `toRemove`: the grid blocks outside the kept cells. -/
def toRemove (keep : List Cell) (blocks : List FileBlock) : List FileBlock :=
  blocks.filter fun b => !b.isFree && decide (b.block.cell ∉ keep)

/-- `EmitFromStdinJson`: the blocks that are saved and the counts. -/
def emitFromStdinJson (keepCells : Option (List (List Int))) (blocks : Option (List FileBlock)) :
    Option (List FileBlock) × EmitOutput :=
  let sourceCount := (blocks.getD []).length
  match keepCells, blocks with
  | some (cell :: cells), some blocks =>
    let remove := toRemove (keepSet (cell :: cells)) blocks
    -- one object is removed for each entry; equal ones are all in the list
    let left := remove.foldl List.erase blocks
    (some left, ⟨left.length, sourceCount, remove.length⟩)
  | _, _ => (blocks, ⟨sourceCount, sourceCount, 0⟩)

/-! ## What the filter leaves -/

/-- Removing every entry that a test picks out leaves the others. -/
theorem foldl_erase_filter {α : Type} [DecidableEq α] (p : α → Bool) (xs : List α) :
    (xs.filter p).foldl List.erase xs = xs.filter fun a => !p a := by
  rw [← List.diff_eq_foldl]
  induction xs with
  | nil => rfl
  | cons a xs ih =>
    cases ha : p a with
    | true =>
      have hgone : (a :: xs).filter (fun a => !p a) = xs.filter fun a => !p a := by simp [ha]
      rw [hgone, List.filter_cons_of_pos ha, List.diff_cons, List.erase_cons_head, ih]
    | false =>
      have hkept : (a :: xs).filter (fun a => !p a) = a :: xs.filter fun a => !p a := by simp [ha]
      have hnot : a ∉ xs.filter p := by simp [ha]
      rw [hkept, List.filter_cons_of_neg (by simp [ha]), List.cons_diff_of_not_mem hnot, ih]

theorem keepSet_payload (cells : List Cell) :
    keepSet (cells.map fun c => [c.x, c.y, c.z]) = cells := by
  unfold keepSet
  rw [List.filterMap_map]
  exact List.filterMap_some

/-- With cells to keep, the file is left with its free blocks and the grid blocks in those cells. -/
theorem emit_of_cells {cells : List Cell} (hcells : cells ≠ []) (file : List FileBlock) :
    emitFromStdinJson (payloadCells (some cells)) (some file) =
      (some (file.filter fun b => b.isFree || decide (b.block.cell ∈ cells)),
        ⟨(file.filter fun b => b.isFree || decide (b.block.cell ∈ cells)).length, file.length,
          (toRemove cells file).length⟩) := by
  obtain ⟨cell, rest, rfl⟩ := List.exists_cons_of_ne_nil hcells
  have hkeep := keepSet_payload (cell :: rest)
  rw [List.map_cons] at hkeep
  have hleft : (toRemove (cell :: rest) file).foldl List.erase file =
      file.filter fun b => b.isFree || decide (b.block.cell ∈ cell :: rest) := by
    unfold toRemove
    rw [foldl_erase_filter]
    congr 1
    funext b
    rw [Bool.not_and, Bool.not_not, decide_not, Bool.not_not]
  unfold emitFromStdinJson payloadCells
  simp only [Option.map_some, List.map_cons, Option.getD_some]
  rw [hkeep, hleft]

/-! ## The artifact's cells -/

section Artifact

variable {σ : Type} [Decimals σ]

/-- A stripped artifact has the base blocks in the cells kept around its route. -/
theorem stripped_blocks {inputs : GenerationInputs} {base : BaseMapData}
    {route : Except AssemblyError (AssembledRoute σ)} {fixed : Nat → σ → String}
    {data : StripMetadata}
    (h : (buildGeneratedMap fixed inputs base route).stripped = some data) :
    ∃ r, route = .ok r ∧
      (buildGeneratedMap fixed inputs base route).blocks =
        filterBlocksByCells base.blocks (computeKeptCells r defaultPolicy base.anchorCells) ∧
      data.keptBlockCount = (buildGeneratedMap fixed inputs base route).blocks.length ∧
      data.baseBlockCount = base.blocks.length := by
  have hdata : (stripIfAsked inputs.strip route base).map (fun s =>
      (⟨s.stripPolicy, s.keptBlockCount, s.baseBlockCount⟩ : StripMetadata)) = some data := h
  have hblocks : (buildGeneratedMap fixed inputs base route).blocks =
      emittedBlocks base (stripIfAsked inputs.strip route base) := rfl
  rw [hblocks]
  cases hstrip : inputs.strip with
  | false =>
    rw [hstrip] at hdata
    cases hdata
  | true =>
    cases route with
    | error e =>
      rw [hstrip] at hdata
      cases hdata
    | ok r =>
      obtain ⟨hblocks', hkept, hbase⟩ := stripRoute_default r base.blocks base.anchorCells
      have hrun : stripIfAsked true (.ok r) base =
          some (stripRoute r base.blocks defaultPolicy base.anchorCells) := rfl
      rw [hstrip, hrun, Option.map_some, Option.some_inj] at hdata
      subst hdata
      rw [hrun]
      exact ⟨r, rfl, hblocks', hkept, hbase⟩

/-- A checkpoint of the artifact is in an anchor cell. -/
theorem checkpoint_mem_anchorCells {rows : MapRows σ} {c : MapCheckpoint}
    (hc : c ∈ (baseMapData rows).checkpoints) : c.cell ∈ (baseMapData rows).anchorCells := by
  have hmem : c ∈ (checkpointsQuery rows.waypoints).filterMap WaypointRow.checkpoint? := hc
  obtain ⟨w, hw, hwc⟩ := List.mem_filterMap.mp hmem
  obtain ⟨cell, hcell, rfl⟩ := Option.map_eq_some_iff.mp hwc
  show cell ∈ (checkpointsQuery rows.waypoints).filterMap WaypointRow.anchorCell?
  refine List.mem_filterMap.mpr ⟨w, hw, ?_⟩
  rw [WaypointRow.anchorCell?, hcell]

omit [Decimals σ] in
/-- The anchor cells themselves are kept. -/
theorem anchorCell_kept {r : AssembledRoute σ} {anchorCells : List Cell} {c : Cell}
    (hc : c ∈ anchorCells) : c ∈ computeKeptCells r defaultPolicy anchorCells := by
  have hradius : defaultPolicy.usesAnchorRadius = true := rfl
  have hself : chebyshev c c ≤ anchorRadiusCheb := by
    simp [chebyshev, anchorRadiusCheb]
  unfold computeKeptCells
  rw [hradius]
  exact List.mem_append_right _ (List.mem_flatMap.mpr ⟨c, hc, mem_chebCube.mpr hself⟩)

/-- The cells that are handed on are kept, and every kept block is in one of them. -/
theorem mem_keepCells {fixed : Nat → σ → String} {inputs : GenerationInputs} {rows : MapRows σ}
    {r : AssembledRoute σ} {b : MapBlock} (hb : b ∈ (baseMapData rows).blocks)
    (hblocks : (buildGeneratedMap fixed inputs (baseMapData rows) (.ok r)).blocks =
      filterBlocksByCells (baseMapData rows).blocks
        (computeKeptCells r defaultPolicy (baseMapData rows).anchorCells)) :
    b.cell ∈ (buildGeneratedMap fixed inputs (baseMapData rows) (.ok r)).blocks.map MapBlock.cell ++
        (baseMapData rows).checkpoints.map MapCheckpoint.cell ↔
      b.cell ∈ computeKeptCells r defaultPolicy (baseMapData rows).anchorCells := by
  rw [hblocks, List.mem_append]
  constructor
  · intro h
    rcases h with h | h
    · obtain ⟨b', hb', hcell⟩ := List.mem_map.mp h
      rw [← hcell]
      exact of_decide_eq_true (List.mem_filter.mp hb').2
    · obtain ⟨c, hc, hcell⟩ := List.mem_map.mp h
      rw [← hcell]
      exact anchorCell_kept (checkpoint_mem_anchorCells hc)
  · intro h
    exact Or.inl (List.mem_map_of_mem (List.mem_filter.mpr ⟨hb, decide_eq_true h⟩))

/-- The grid blocks of a file. -/
def gridBlocks (file : List FileBlock) : List FileBlock := file.filter fun b => !b.isFree

/-- The saved file is the stripped artifact. -/
structure StrippedFile (g : GeneratedMap σ) (data : StripMetadata) (file left : List FileBlock)
    (counts : EmitOutput) : Prop where
  /-- The grid blocks are the blocks of the artifact. -/
  grid : ((gridBlocks left).map FileBlock.block).Perm g.blocks
  /-- All blocks of one cell are kept or removed together. -/
  cells : ∃ kept : List Cell,
    left = file.filter fun b => b.isFree || decide (b.block.cell ∈ kept)
  /-- Every free block stays. -/
  free : left.filter (·.isFree) = file.filter (·.isFree)
  removed : counts.removedBlockCount = data.baseBlockCount - data.keptBlockCount
  /-- The file is a full copy only when the artifact keeps every block. -/
  copy : left = file ↔ data.keptBlockCount = data.baseBlockCount

omit [Decimals σ] in
/-- The grid blocks that are left are those in the kept cells. -/
theorem gridBlocks_left (cells : List Cell) (file : List FileBlock) :
    gridBlocks (file.filter fun b => b.isFree || decide (b.block.cell ∈ cells)) =
      (gridBlocks file).filter fun b => decide (b.block.cell ∈ cells) := by
  unfold gridBlocks
  rw [List.filter_filter, List.filter_filter]
  congr 1
  funext b
  cases b.isFree with
  | true => simp
  | false => simp

omit [Decimals σ] in
/-- The removed blocks are the other grid blocks. -/
theorem toRemove_eq (cells : List Cell) (file : List FileBlock) :
    toRemove cells file = (gridBlocks file).filter fun b => !decide (b.block.cell ∈ cells) := by
  unfold toRemove gridBlocks
  rw [List.filter_filter]
  congr 1
  funext b
  rw [Bool.and_comm, decide_not]

omit [Decimals σ] in
/-- When nothing is removed the whole file is left. -/
theorem left_eq_iff (cells : List Cell) (file : List FileBlock) :
    (file.filter fun b => b.isFree || decide (b.block.cell ∈ cells)) = file ↔
      toRemove cells file = [] := by
  unfold toRemove
  rw [List.filter_eq_self, List.filter_eq_nil_iff]
  apply forall₂_congr
  intro b _
  cases b.isFree with
  | true => simp
  | false => simp

omit [Decimals σ] in
/-- A file with the grid blocks of a list keeps at the cells what the list has there. -/
theorem gridBlocks_filter_perm {file : List FileBlock} {blocks : List MapBlock}
    (hfile : ((gridBlocks file).map FileBlock.block).Perm blocks) (cells : List Cell) :
    (((gridBlocks file).filter fun b => decide (b.block.cell ∈ cells)).map FileBlock.block).Perm
      (blocks.filter fun b => decide (b.cell ∈ cells)) := by
  have hmap : ((gridBlocks file).filter fun b => decide (b.block.cell ∈ cells)).map
      FileBlock.block =
      ((gridBlocks file).map FileBlock.block).filter fun b => decide (b.cell ∈ cells) := by
    rw [List.filter_map]
    rfl
  rw [hmap]
  exact hfile.filter _

omit [Decimals σ] in
/-- What is removed and what is kept are all blocks. -/
theorem length_toRemove {file : List FileBlock} {blocks : List MapBlock}
    (hfile : ((gridBlocks file).map FileBlock.block).Perm blocks) (cells : List Cell) :
    (toRemove cells file).length + (blocks.filter fun b => decide (b.cell ∈ cells)).length =
      blocks.length := by
  have htotal := List.length_eq_length_filter_add (l := gridBlocks file)
    fun b => decide (b.block.cell ∈ cells)
  have hkept := (gridBlocks_filter_perm hfile cells).length_eq
  have hbase := hfile.length_eq
  rw [List.length_map] at hkept hbase
  rw [← toRemove_eq] at htotal
  omega

omit [Decimals σ] in
/-- No free block is removed. -/
theorem filter_isFree_left (cells : List Cell) (file : List FileBlock) :
    (file.filter fun b => b.isFree || decide (b.block.cell ∈ cells)).filter (·.isFree) =
      file.filter (·.isFree) := by
  rw [List.filter_filter]
  congr 1
  funext b
  cases b.isFree with
  | true => rfl
  | false => rfl

end Artifact

/-- The file of the climb, with a free block above the road. -/
def climbFile : List FileBlock :=
  climbRows.blockPlacements.map (fun row => ⟨false, row.block⟩) ++
    [⟨true, ⟨"Deco", "DecoHillIce", 10, 12, 10, 0⟩⟩]

end TraxMania.Generation.Generator
