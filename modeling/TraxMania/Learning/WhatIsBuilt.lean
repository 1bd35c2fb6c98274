import TraxMania.Learning.RealiseMap

/-
  What is exported is what is built: the decoder puts the blocks of either encoder where they were,
  up to one translation that moves the whole route onto the base.

  Tokens that have been written so far decode to what has been exported so far, with the first cell
  as the origin; a placement and a revisit move both cursors alike.
-/

namespace TraxMania.Learning

open TraxMania.Driven TraxMania.Grid Lib Lib.PyText

/-! ## The first pass -/

theorem rawCells_concat (tokens : List Token) (token : Token) :
    rawCells (tokens ++ [token]) = (rawCells tokens).bind fun s => rawStep s token := by
  unfold rawCells
  rw [List.foldlM_append]
  cases tokens.foldlM rawStep RawState.start with
  | error e => rfl
  | ok s =>
    show [token].foldlM rawStep s = rawStep s token
    rw [List.foldlM_cons]
    exact bind_pure (rawStep s token)

/-- JUMP and GAP, the tokens that place nothing and move nothing. -/
def Token.isContext : Token → Bool
  | .jump => true
  | .gap => true
  | _ => false

/-- The tokens without the context. -/
def withoutContext (tokens : List Token) : List Token := tokens.filter fun t => !t.isContext

theorem foldlM_withoutContext (tokens : List Token) (s : RawState) :
    (withoutContext tokens).foldlM rawStep s = tokens.foldlM rawStep s := by
  induction tokens generalizing s with
  | nil => rfl
  | cons token tokens ih =>
    have hcons : ∀ s, (token :: withoutContext tokens).foldlM rawStep s =
        (token :: tokens).foldlM rawStep s := by
      intro s
      rw [List.foldlM_cons, List.foldlM_cons]
      exact bind_congr fun s' => ih s'
    unfold withoutContext at ih hcons ⊢
    cases token with
    | jump => exact ih s
    | gap => exact ih s
    | place block d rot free => exact hcons s
    | revisit back => exact hcons s
    | other op => exact hcons s

/-- The context does not change what is built. -/
theorem tokensToBlocks_withoutContext (tokens : List Token) :
    tokensToBlocks (withoutContext tokens) = tokensToBlocks tokens := by
  unfold tokensToBlocks rawCells
  rw [foldlM_withoutContext]

/-- The names and rotations of the PLACE tokens. -/
def placed (tokens : List Token) : List (Text × Int) :=
  tokens.filterMap fun
    | .place block _ rot _ => some (block, rot.getD 0)
    | _ => none

theorem placed_concat (tokens : List Token) (token : Token) :
    placed (tokens ++ [token]) = placed tokens ++ placed [token] := by
  unfold placed
  exact List.filterMap_append

/-- The first pass keeps one entry for each PLACE token, in their order. -/
theorem rawCells_placed {tokens : List Token} {s : RawState} (h : rawCells tokens = .ok s) :
    placed tokens = s.raw.map fun r => (r.2.1, r.2.2.getD 0) := by
  induction tokens using List.reverseRecOn generalizing s with
  | nil =>
    cases h
    rfl
  | append_singleton tokens token ih =>
    rw [rawCells_concat] at h
    cases hs : rawCells tokens with
    | error e =>
      rw [hs] at h
      cases h
    | ok s' =>
      rw [hs] at h
      rw [placed_concat, ih hs]
      cases token with
      | place block d rot free =>
        match d, h with
        | dx :: dy :: dz :: _, h =>
          cases h
          unfold RawState.advance
          rw [List.map_append]
          rfl
      | revisit back =>
        cases h
        unfold RawState.back
        split <;> exact List.append_nil _
      | jump =>
        cases h
        exact List.append_nil _
      | gap =>
        cases h
        exact List.append_nil _
      | other op =>
        cases h
        exact List.append_nil _

/-- Where the cursor of the decoder stands, with the origin at `base`: at the cell before, or at
    the origin when `c` is the first cell. -/
def Aligned (base : Cell) (prev : Option Cell) (cur c : Cell) : Prop :=
  match prev with
  | none => cur = ⟨0, 0, 0⟩ ∧ c = base
  | some p => cur = p - base

/-- The delta of a placement leads the cursor to its cell. -/
theorem delta_lands {base c cur : Cell} {prev : Option Cell} (h : Aligned base prev cur c) :
    ∃ dx dy dz, delta prev c = [dx, dy, dz] ∧
      (⟨cur.x + dx, cur.y + dy, cur.z + dz⟩ : Cell) = c - base := by
  cases prev with
  | none =>
    obtain ⟨rfl, rfl⟩ := h
    refine ⟨0, 0, 0, rfl, Cell.ext ?_ ?_ ?_⟩
    · show 0 + 0 = c.x - c.x
      omega
    · show 0 + 0 = c.y - c.y
      omega
    · show 0 + 0 = c.z - c.z
      omega
  | some p =>
    obtain rfl : cur = p - base := h
    refine ⟨_, _, _, rfl, Cell.ext ?_ ?_ ?_⟩
    · show p.x - base.x + (c.x - p.x) = c.x - base.x
      omega
    · show p.y - base.y + (c.y - p.y) = c.y - base.y
      omega
    · show p.z - base.z + (c.z - p.z) = c.z - base.z
      omega

/-- A placement is decoded to its cell. -/
theorem rawStep_place {base c : Cell} {prev : Option Cell} {s : RawState}
    (h : Aligned base prev s.cur c) (block : Text) (rot : Option Int) (free : Option Bool) :
    rawStep s (.place block (delta prev c) rot free) =
      .ok ⟨s.raw ++ [(c - base, block, rot)], s.placed ++ [c - base], c - base⟩ := by
  obtain ⟨dx, dy, dz, hd, hc⟩ := delta_lands h
  rw [hd]
  show Except.ok (s.advance block rot dx dy dz) = _
  unfold RawState.advance
  simp only [hc]

/-- A revisit goes back to the placement of index `i`. -/
theorem rawStep_revisit {s : RawState} {i : Nat} {c : Cell} (h : s.placed[i]? = some c) :
    rawStep s (.revisit (s.placed.length - i)) = .ok { s with cur := c } := by
  have hi : i < s.placed.length := (List.getElem?_eq_some_iff.mp h).1
  show Except.ok (s.back _) = _
  unfold RawState.back
  have hback : s.placed.length - ((s.placed.length : Int) - i).toNat = i := by omega
  rw [if_pos (by omega), hback, h]
  rfl

/-! ## The second pass -/

section

variable {ns : List Int} {cells : List Cell}

theorem least_mem (h : ns ≠ []) : least ns ∈ ns := by
  unfold least
  cases hm : ns.min? with
  | none => exact absurd (List.min?_eq_none_iff.mp hm) h
  | some m => exact List.min?_mem hm

theorem least_le {n : Int} (h : n ∈ ns) : least ns ≤ n := by
  unfold least
  cases hm : ns.min? with
  | none => exact absurd (List.min?_eq_none_iff.mp hm) (List.ne_nil_of_mem h)
  | some m => exact (List.min?_eq_some_iff.mp hm).2 n h

theorem greatest_mem (h : ns ≠ []) : greatest ns ∈ ns := by
  unfold greatest
  cases hm : ns.max? with
  | none => exact absurd (List.max?_eq_none_iff.mp hm) h
  | some m => exact List.max?_mem hm

theorem le_greatest {n : Int} (h : n ∈ ns) : n ≤ greatest ns := by
  unfold greatest
  cases hm : ns.max? with
  | none => exact absurd (List.max?_eq_none_iff.mp hm) (List.ne_nil_of_mem h)
  | some m => exact (List.max?_eq_some_iff.mp hm).2 n h

/-- The extent bounds every difference, and one difference attains it. -/
theorem extent_le_iff (h : ns ≠ []) (n : Int) :
    extent ns ≤ n ↔ ∀ a ∈ ns, ∀ b ∈ ns, a - b < n := by
  unfold extent
  constructor
  · intro hle a ha b hb
    have hmax := le_greatest ha
    have hmin := least_le hb
    omega
  · intro hall
    have hlt := hall _ (greatest_mem h) _ (least_mem h)
    omega

/-- The bounding box of the cells is at most 48 x 40 x 48. -/
def FitsGrid (cells : List Cell) : Prop :=
  ∀ a ∈ cells, ∀ b ∈ cells, a.x - b.x < 48 ∧ a.y - b.y < 40 ∧ a.z - b.z < 48

theorem not_oversize_iff (h : cells ≠ []) : ¬ Oversize (spanOf cells) ↔ FitsGrid cells := by
  have hne : ∀ f : Cell → Int, cells.map f ≠ [] := fun f hmap => h (List.map_eq_nil_iff.mp hmap)
  have hx := extent_le_iff (hne Cell.x) gridX
  have hy := extent_le_iff (hne Cell.y) gridY
  have hz := extent_le_iff (hne Cell.z) gridZ
  simp only [List.forall_mem_map] at hx hy hz
  unfold Oversize FitsGrid spanOf
  rw [not_or, not_or, not_lt, not_lt, not_lt, hx, hy, hz]
  constructor
  · rintro ⟨h1, h2, h3⟩ a ha b hb
    exact ⟨h1 a ha b hb, h2 a ha b hb, h3 a ha b hb⟩
  · intro hall
    exact ⟨fun a ha b hb => (hall a ha b hb).1, fun a ha b hb => (hall a ha b hb).2.1,
      fun a ha b hb => (hall a ha b hb).2.2⟩

/-- The cell is one of the base. -/
def OnBase (c : Cell) : Prop := (0 ≤ c.x ∧ c.x < 48) ∧ (0 ≤ c.y ∧ c.y < 40) ∧ 0 ≤ c.z ∧ c.z < 48

/-- A centred extent. -/
theorem centred_mem {n size : Int} (h : n ∈ ns) (hfits : extent ns ≤ size) :
    0 ≤ n + ((size - extent ns) / 2 - least ns) ∧
      n + ((size - extent ns) / 2 - least ns) < size := by
  have hmin := least_le h
  have hmax := le_greatest h
  unfold extent at hfits ⊢
  omega

theorem rowShift_mem {n : Int} (h : n ∈ ns) (hfits : extent ns ≤ gridY) :
    0 ≤ n + rowShift ns ∧ n + rowShift ns < gridY := by
  have hmin := least_le h
  have hmax := le_greatest h
  unfold rowShift extent gridY groundY at *
  split <;> omega

theorem offset_onBase (hfits : ¬ Oversize (spanOf cells)) {c : Cell} (hc : c ∈ cells) :
    OnBase (c + offset cells) := by
  unfold Oversize spanOf at hfits
  rw [not_or, not_or, not_lt, not_lt, not_lt] at hfits
  refine ⟨centred_mem (List.mem_map_of_mem hc) hfits.1,
    rowShift_mem (List.mem_map_of_mem hc) hfits.2.1, ?_⟩
  exact centred_mem (List.mem_map_of_mem hc) hfits.2.2

end

/-! ## What is built from tokens -/

/-- What the tokens of some exported placements are built into. A placement is its cell, its block
    and its rotation. -/
structure Built (tokens : List Token) (items : List (Cell × Text × Int)) : Prop where
  /-- One PLACE token for each placement, in the same order. -/
  places : placed tokens = items.map Prod.snd
  /-- One block for each of them, all moved alike, and onto the base; -/
  fits : FitsGrid (items.map Prod.fst) → ∃ v info,
    tokensToBlocks tokens = .ok (items.map fun e => ⟨e.2.1, e.1 + v, e.2.2⟩, info) ∧
      info.oversize = false ∧ ∀ e ∈ items, OnBase (e.1 + v)
  /-- but no block at all when the box is too large. -/
  oversize : ¬ FitsGrid (items.map Prod.fst) → ∃ info,
    tokensToBlocks tokens = .ok ([], info) ∧ info.oversize = true
  /-- JUMP and GAP tokens may come and go. -/
  context : ∀ tokens', withoutContext tokens' = withoutContext tokens →
    tokensToBlocks tokens' = tokensToBlocks tokens

/-- The entries of the first pass for some placements. -/
def rawEntries (base : Cell) (items : List (Cell × Text × Int)) :
    List (Cell × Text × Option Int) :=
  items.map fun e => (e.1 - base, e.2.1, some e.2.2)

/-- The box does not depend on the origin. -/
theorem fitsGrid_sub (base : Cell) (items : List (Cell × Text × Int)) :
    FitsGrid ((rawEntries base items).map Prod.fst) ↔ FitsGrid (items.map Prod.fst) := by
  have hcells : (rawEntries base items).map Prod.fst =
      (items.map Prod.fst).map fun c => c - base := by
    unfold rawEntries
    rw [List.map_map, List.map_map]
    rfl
  unfold FitsGrid
  rw [hcells]
  simp only [List.forall_mem_map, Cell.sub_x, Cell.sub_y, Cell.sub_z, sub_sub_sub_cancel_right]

theorem cells_rawEntries_ne_nil (base : Cell) {items : List (Cell × Text × Int)}
    (h : items ≠ []) : (rawEntries base items).map Prod.fst ≠ [] := by
  unfold rawEntries
  simpa using h

/-- A cell moved to the origin and then by the offset is the cell moved once. -/
theorem add_offset_sub (c off base : Cell) : c + (off - base) = c - base + off := by
  refine Cell.ext ?_ ?_ ?_
  · rw [Cell.add_x, Cell.sub_x, Cell.add_x, Cell.sub_x]
    omega
  · rw [Cell.add_y, Cell.sub_y, Cell.add_y, Cell.sub_y]
    omega
  · rw [Cell.add_z, Cell.sub_z, Cell.add_z, Cell.sub_z]
    omega

theorem tokensToBlocks_of_rawCells {tokens : List Token} {s : RawState}
    (h : rawCells tokens = .ok s) : tokensToBlocks tokens = .ok (emitBlocks s.raw) := by
  unfold tokensToBlocks
  rw [h]
  rfl

/-- Placements that fit the grid are moved onto it, all by one shift. -/
theorem emitBlocks_fits (base : Cell) {items : List (Cell × Text × Int)} (h : items ≠ [])
    (hfits : FitsGrid (items.map Prod.fst)) :
    ∃ off info, emitBlocks (rawEntries base items) =
        (items.map fun e => ⟨e.2.1, e.1 + off, e.2.2⟩, info) ∧
      info.oversize = false ∧ ∀ e ∈ items, OnBase (e.1 + off) := by
  have hne := cells_rawEntries_ne_nil base h
  have hsize := (not_oversize_iff hne).mpr ((fitsGrid_sub base items).mpr hfits)
  refine ⟨offset ((rawEntries base items).map Prod.fst) - base,
    ⟨0, spanOf ((rawEntries base items).map Prod.fst), false⟩, ?_, rfl, ?_⟩
  · unfold emitBlocks
    rw [if_neg (by simpa using fun h => hne (by rw [h]; rfl)), if_neg hsize]
    unfold translateBlocks
    simp only [add_offset_sub]
    unfold rawEntries
    rw [List.map_map]
    rfl
  · intro e he
    rw [add_offset_sub]
    refine offset_onBase hsize ?_
    unfold rawEntries
    rw [List.map_map]
    exact List.mem_map_of_mem he

/-- Placements that do not fit are all left out. -/
theorem emitBlocks_oversize (base : Cell) {items : List (Cell × Text × Int)}
    (hfits : ¬ FitsGrid (items.map Prod.fst)) :
    ∃ info, emitBlocks (rawEntries base items) = ([], info) ∧ info.oversize = true := by
  have hnil : items ≠ [] := by
    rintro rfl
    exact hfits fun a ha => absurd ha List.not_mem_nil
  have hne := cells_rawEntries_ne_nil base hnil
  have hsize : Oversize (spanOf ((rawEntries base items).map Prod.fst)) := by
    by_contra h
    exact hfits ((fitsGrid_sub base items).mp ((not_oversize_iff hne).mp h))
  refine ⟨⟨(rawEntries base items).length,
    spanOf ((rawEntries base items).map Prod.fst), true⟩, ?_, rfl⟩
  unfold emitBlocks
  rw [if_neg (by simpa using fun h => hne (by rw [h]; rfl)), if_pos hsize]

/-- Tokens whose first pass finds the placements are built into them. -/
theorem built_of_rawCells {tokens : List Token} {items : List (Cell × Text × Int)} {base : Cell}
    {s : RawState} (hs : rawCells tokens = .ok s) (hraw : s.raw = rawEntries base items) :
    Built tokens items where
  places := by
    rw [rawCells_placed hs, hraw]
    unfold rawEntries
    rw [List.map_map]
    rfl
  fits := by
    intro hfits
    rw [tokensToBlocks_of_rawCells hs, hraw]
    by_cases hnil : items = []
    · subst hnil
      refine ⟨⟨0, 0, 0⟩, ⟨0, ⟨0, 0, 0⟩, false⟩, rfl, rfl, ?_⟩
      intro e he
      cases he
    · obtain ⟨off, info, hemit, hinfo, hbase⟩ := emitBlocks_fits base hnil hfits
      exact ⟨off, info, by rw [hemit], hinfo, hbase⟩
  oversize := by
    intro hfits
    obtain ⟨info, hemit, hinfo⟩ := emitBlocks_oversize base hfits
    exact ⟨info, by rw [tokensToBlocks_of_rawCells hs, hraw, hemit], hinfo⟩
  context := by
    intro tokens' h
    rw [← tokensToBlocks_withoutContext tokens', h, tokensToBlocks_withoutContext]

/-! ## Whole maps -/

/-- The placement of a grid block. -/
def RawBlock.item (b : RawBlock) : Cell × Text × Int := (b.cell, b.block, b.rot % 4)

theorem foldlM_blockTokens {base : Cell} (blocks : List RawBlock) {prev : Option Cell}
    {s : RawState} (hs : ∀ b ∈ blocks.head?, Aligned base prev s.cur b.cell) :
    ∃ s', (blockTokens prev blocks).foldlM rawStep s = .ok s' ∧
      s'.raw = s.raw ++ rawEntries base (blocks.map RawBlock.item) := by
  induction blocks generalizing prev s with
  | nil => exact ⟨s, rfl, (List.append_nil _).symm⟩
  | cons b blocks ih =>
    have hstep := rawStep_place (hs b rfl) b.block (some (b.rot % 4)) (some false)
    have hnext : ∀ b' ∈ blocks.head?, Aligned base (some b.cell)
        (⟨s.raw ++ [(b.cell - base, b.block, some (b.rot % 4))], s.placed ++ [b.cell - base],
          b.cell - base⟩ : RawState).cur b'.cell := fun _ _ => rfl
    obtain ⟨s', hs', hraw⟩ := ih hnext
    refine ⟨s', ?_, ?_⟩
    · unfold blockTokens
      rw [List.foldlM_cons, hstep]
      exact hs'
    · rw [hraw, List.append_assoc]
      rfl

/-- The blocks of a map are built. -/
theorem built_blocks (blocks : List RawBlock) :
    Built (blocksToTokens blocks) (blocks.map RawBlock.item) := by
  cases blocks with
  | nil =>
    have hraw : RawState.start.raw = rawEntries ⟨0, 0, 0⟩ [] := rfl
    exact built_of_rawCells rfl hraw
  | cons b blocks =>
    have haligned : ∀ b' ∈ (b :: blocks).head?, Aligned b.cell none RawState.start.cur b'.cell := by
      intro b' hb'
      cases hb'
      exact ⟨rfl, rfl⟩
    obtain ⟨s, hs, hraw⟩ := foldlM_blockTokens (b :: blocks) haligned
    exact built_of_rawCells hs hraw

/-! ## Driven visits -/

section

variable {σ : Type} [Metres σ] (placements : Dict Int (ExportPlacement σ))

/-- A visit to a block of the placement table: the id, the row and its cell. -/
def drivenBlock (v : BlockVisit) : Option (Int × ExportPlacement σ × Cell) :=
  match v.state with
  | .onBlock => v.placementId.bind fun pid => (placements.get? pid).bind fun p =>
      (exportCell p.position).map fun c => (pid, p, c)
  | _ => none

variable {placements} in
/-- A visit to a block, taken apart. -/
theorem drivenBlock_onBlock {v : BlockVisit} (hv : v.state = .onBlock) :
    drivenBlock placements v = v.placementId.bind fun pid => (placements.get? pid).bind fun p =>
      (exportCell p.position).map fun c => (pid, p, c) := by
  rw [drivenBlock, hv]

variable {placements} in
theorem drivenBlock_known {v : BlockVisit} {e : Int × ExportPlacement σ × Cell}
    (h : drivenBlock placements v = some e) :
    placements.get? e.1 = some e.2.1 ∧ exportCell e.2.1.position = some e.2.2 := by
  cases hstate : v.state with
  | airborne =>
    rw [drivenBlock, hstate] at h
    cases h
  | offSurface =>
    rw [drivenBlock, hstate] at h
    cases h
  | onBlock =>
    rw [drivenBlock_onBlock hstate] at h
    obtain ⟨pid, -, h⟩ := Option.bind_eq_some_iff.mp h
    obtain ⟨p, hp, h⟩ := Option.bind_eq_some_iff.mp h
    obtain ⟨c, hc, rfl⟩ := Option.map_eq_some_iff.mp h
    exact ⟨hp, hc⟩

/-- What the turn of the loop at a visit makes of the state. -/
inductive Turn (s : ExportState) (v : BlockVisit) : ExportState → Prop where
  | jump (hnone : drivenBlock placements v = none) :
    Turn s v (s.context .jump fun stats => { stats with jumps := stats.jumps + 1 })
  | gap (hnone : drivenBlock placements v = none) :
    Turn s v (s.context .gap fun stats => { stats with gaps := stats.gaps + 1 })
  | skip (hnone : drivenBlock placements v = none) : Turn s v s.skip
  | revisit (pid : Int) (p : ExportPlacement σ) (i : Nat) (hp : placements.get? pid = some p)
    (hset : s.placedSet.get? pid = some i)
    (hdriven : drivenBlock placements v = (exportCell p.position).map fun c => (pid, p, c)) :
    Turn s v (s.revisit v p i)
  | place (e : Int × ExportPlacement σ × Cell) (hdriven : drivenBlock placements v = some e)
    (hp : placements.get? e.1 = some e.2.1) (hc : exportCell e.2.1.position = some e.2.2)
    (hset : s.placedSet.get? e.1 = none) : Turn s v (s.place e.1 e.2.1 e.2.2)

theorem turn_exportVisit (s : ExportState) (v : BlockVisit) :
    Turn placements s v (exportVisit placements s v) := by
  unfold exportVisit
  cases hstate : v.state with
  | airborne => exact .jump (by rw [drivenBlock, hstate])
  | offSurface => exact .gap (by rw [drivenBlock, hstate])
  | onBlock =>
    have hdriven : drivenBlock placements v = _ := drivenBlock_onBlock hstate
    dsimp only
    unfold ExportState.onBlock
    cases hpid : v.placementId with
    | none =>
      rw [hpid] at hdriven
      exact .skip hdriven
    | some pid =>
      rw [hpid, Option.bind_some] at hdriven
      dsimp only
      cases hp : placements.get? pid with
      | none =>
        rw [hp] at hdriven
        exact .skip hdriven
      | some p =>
        rw [hp, Option.bind_some] at hdriven
        dsimp only
        cases hset : s.placedSet.get? pid with
        | some i => exact .revisit pid p i hp hset hdriven
        | none =>
          dsimp only
          cases hc : exportCell p.position with
          | none =>
            rw [hc] at hdriven
            exact .skip hdriven
          | some c =>
            rw [hc] at hdriven
            exact .place (pid, p, c) hdriven hp hc hset

/-- The exported placements: the first visit to each. -/
def exported (visits : List BlockVisit) : List (Int × ExportPlacement σ × Cell) :=
  firsts Prod.fst (visits.filterMap (drivenBlock placements))

/-- An exported placement as a cell, a block and a rotation. -/
def exportItem (e : Int × ExportPlacement σ × Cell) : Cell × Text × Int :=
  (e.2.2, e.2.1.blockType, e.2.1.rotation.getD 0)

/-- What the tokens of `s` decode to (`t`), where `items` have been exported so far. -/
structure Followed (base : Cell) (items : List (Int × ExportPlacement σ × Cell))
    (s : ExportState) (t : RawState) : Prop where
  read : rawCells s.tokens = .ok t
  raw : t.raw = rawEntries base (items.map exportItem)
  placed : t.placed = items.map fun e => e.2.2 - base
  /-- Both cursors stand alike. -/
  cursor : ∀ c, (items = [] → c = base) → Aligned base s.prevCell t.cur c
  order : s.placedOrder = items.map Prod.fst
  /-- The index of a placement is its place among the exported ones. -/
  index : ∀ pid i, s.placedSet.get? pid = some i → ∃ e, items[i]? = some e ∧ e.1 = pid
  indexed : ∀ e ∈ items, ∃ i, s.placedSet.get? e.1 = some i
  known : ∀ e ∈ items, placements.get? e.1 = some e.2.1 ∧ exportCell e.2.1.position = some e.2.2

variable {placements} {base : Cell} {items : List (Int × ExportPlacement σ × Cell)}
  {s : ExportState} {t : RawState}

theorem Followed.start (base : Cell) (stats : ExportStats) :
    Followed placements base [] (ExportState.start stats) RawState.start where
  read := rfl
  raw := rfl
  placed := rfl
  cursor := fun _ h => ⟨rfl, h rfl⟩
  order := rfl
  index := by
    intro pid i h
    cases h
  indexed := by
    intro e he
    cases he
  known := by
    intro e he
    cases he

theorem Followed.skip (h : Followed placements base items s t) :
    Followed placements base items s.skip t :=
  ⟨h.read, h.raw, h.placed, h.cursor, h.order, h.index, h.indexed, h.known⟩

theorem Followed.context (h : Followed placements base items s t) {token : Token}
    (htoken : ∀ t, rawStep t token = .ok t) (count : ExportStats → ExportStats) :
    Followed placements base items (s.context token count) t := by
  unfold ExportState.context
  split
  · exact h
  · have hread : rawCells (s.tokens ++ [token]) = .ok t := by
      rw [rawCells_concat, h.read]
      exact htoken t
    exact ⟨hread, h.raw, h.placed, h.cursor, h.order, h.index, h.indexed, h.known⟩

/-- A revisit: both cursors go to the cell of the placement. -/
theorem Followed.revisit (h : Followed placements base items s t) (v : BlockVisit) {i : Nat}
    {e : Int × ExportPlacement σ × Cell} (he : items[i]? = some e) :
    Followed placements base items (s.revisit v e.2.1 i) { t with cur := e.2.2 - base } := by
  have hmem : e ∈ items := List.mem_of_getElem? he
  have hplaced : t.placed[i]? = some (e.2.2 - base) := by
    rw [h.placed, List.getElem?_map, he]
    rfl
  have hlength : s.placedOrder.length = t.placed.length := by
    rw [h.order, h.placed, List.length_map, List.length_map]
  have hread : rawCells (s.revisit v e.2.1 i).tokens = .ok { t with cur := e.2.2 - base } := by
    unfold ExportState.revisit
    rw [rawCells_concat, h.read, hlength]
    exact rawStep_revisit hplaced
  have hprev : (s.revisit v e.2.1 i).prevCell = some e.2.2 := by
    unfold ExportState.revisit
    rw [(h.known e hmem).2]
    rfl
  refine ⟨hread, h.raw, h.placed, fun c _ => ?_, h.order, h.index, h.indexed, h.known⟩
  rw [hprev]
  rfl

/-- A placement: both cursors move to its cell. -/
theorem Followed.place (h : Followed placements base items s t) {pid : Int}
    {p : ExportPlacement σ} {c : Cell} (hp : placements.get? pid = some p)
    (hc : exportCell p.position = some c) (hbase : items = [] → c = base) :
    Followed placements base (items ++ [(pid, p, c)]) (s.place pid p c)
      ⟨t.raw ++ [(c - base, p.blockType, some (p.rotation.getD 0))], t.placed ++ [c - base],
        c - base⟩ where
  read := by
    unfold ExportState.place
    rw [rawCells_concat, h.read]
    exact rawStep_place (h.cursor c hbase) p.blockType (some (p.rotation.getD 0)) (some p.isFree)
  raw := by
    rw [h.raw]
    unfold rawEntries
    rw [List.map_append, List.map_append]
    rfl
  placed := by
    rw [h.placed, List.map_append]
    rfl
  cursor := fun _ _ => rfl
  order := by
    unfold ExportState.place
    rw [h.order, List.map_append]
    rfl
  index := by
    intro pid' i hi
    unfold ExportState.place at hi
    rw [Dict.get?_upsert] at hi
    split at hi
    · next heq =>
      have hlength : i = items.length := by
        rw [← Option.some.inj hi, h.order, List.length_map]
      rw [hlength]
      exact ⟨(pid, p, c), List.getElem?_concat_length, heq.symm⟩
    · obtain ⟨e, he, hpid⟩ := h.index pid' i hi
      have hlt : i < items.length := (List.getElem?_eq_some_iff.mp he).1
      exact ⟨e, by rw [List.getElem?_append_left hlt, he], hpid⟩
  indexed := by
    intro e he
    unfold ExportState.place
    rw [Dict.get?_upsert]
    split
    · exact ⟨_, rfl⟩
    · next hne =>
      rcases List.mem_append.mp he with he | he
      · exact h.indexed e he
      · rw [List.mem_singleton] at he
        exact absurd (by rw [he]) hne
  known := by
    intro e he
    rcases List.mem_append.mp he with he | he
    · exact h.known e he
    · rw [List.mem_singleton] at he
      rw [he]
      exact ⟨hp, hc⟩

/-! ## The loop over the visits -/

/-- One more visit: its placement is exported when it is a new one. -/
theorem exported_concat (placements : Dict Int (ExportPlacement σ)) (visits : List BlockVisit)
    (v : BlockVisit) :
    exported placements (visits ++ [v]) =
      match drivenBlock placements v with
      | none => exported placements visits
      | some e =>
        if ∃ e' ∈ exported placements visits, e'.1 = e.1 then exported placements visits
        else exported placements visits ++ [e] := by
  unfold exported
  rw [List.filterMap_append]
  cases hv : drivenBlock placements v with
  | none => rw [List.filterMap_cons_none hv, List.filterMap_nil, List.append_nil]
  | some e =>
    rw [List.filterMap_cons_some hv, List.filterMap_nil, firsts_concat]
    have hiff : e.1 ∈ (visits.filterMap (drivenBlock placements)).map Prod.fst ↔
        ∃ e' ∈ firsts Prod.fst (visits.filterMap (drivenBlock placements)), e'.1 = e.1 := by
      rw [List.mem_map]
      constructor
      · rintro ⟨e', he', hkey⟩
        have hfirst : ∃ e'' ∈ firsts Prod.fst (visits.filterMap (drivenBlock placements)),
            e''.1 = e'.1 := exists_mem_firsts he'
        obtain ⟨e'', he'', hkey'⟩ := hfirst
        exact ⟨e'', he'', hkey'.trans hkey⟩
      · rintro ⟨e', he', hkey⟩
        exact ⟨e', mem_of_mem_firsts he', hkey⟩
    simp only [hiff]
    split
    · exact List.append_nil _
    · rfl

theorem exported_of_none {visits : List BlockVisit} {v : BlockVisit}
    (hv : drivenBlock placements v = none) :
    exported placements (visits ++ [v]) = exported placements visits := by
  rw [exported_concat, hv]

theorem exported_of_known {visits : List BlockVisit} {v : BlockVisit}
    {e : Int × ExportPlacement σ × Cell} (hv : drivenBlock placements v = some e)
    (hknown : ∃ e' ∈ exported placements visits, e'.1 = e.1) :
    exported placements (visits ++ [v]) = exported placements visits := by
  rw [exported_concat, hv]
  exact if_pos hknown

theorem exported_of_new {visits : List BlockVisit} {v : BlockVisit}
    {e : Int × ExportPlacement σ × Cell} (hv : drivenBlock placements v = some e)
    (hnew : ¬ ∃ e' ∈ exported placements visits, e'.1 = e.1) :
    exported placements (visits ++ [v]) = exported placements visits ++ [e] := by
  rw [exported_concat, hv]
  exact if_neg hnew

/-- A placement with an index is an exported one, and the visit to it has a block. -/
theorem Followed.revisited {visits : List BlockVisit}
    (h : Followed placements base (exported placements visits) s t) {v : BlockVisit} {pid : Int}
    {p : ExportPlacement σ} {i : Nat} (hp : placements.get? pid = some p)
    (hset : s.placedSet.get? pid = some i)
    (hdriven : drivenBlock placements v = (exportCell p.position).map fun c => (pid, p, c)) :
    ∃ e, (exported placements visits)[i]? = some e ∧ e.2.1 = p ∧
      drivenBlock placements v = some e := by
  obtain ⟨e, he, rfl⟩ := h.index pid i hset
  obtain ⟨hp', hc⟩ := h.known e (List.mem_of_getElem? he)
  obtain rfl : e.2.1 = p := Option.some.inj (hp'.symm.trans hp)
  rw [hc] at hdriven
  exact ⟨e, he, rfl, hdriven⟩

theorem Followed.unplaced {visits : List BlockVisit}
    (h : Followed placements base (exported placements visits) s t) {pid : Int}
    (hset : s.placedSet.get? pid = none) : ¬ ∃ e ∈ exported placements visits, e.1 = pid := by
  intro ⟨e, he, hkey⟩
  obtain ⟨i, hi⟩ := h.indexed e he
  rw [hkey, hset] at hi
  cases hi

/-- What one visit does to the exported placements and to what the tokens decode to. -/
theorem Followed.visit {visits : List BlockVisit}
    (h : Followed placements base (exported placements visits) s t) (v : BlockVisit)
    (hbase : ∀ e ∈ (exported placements (visits ++ [v])).head?, e.2.2 = base) :
    ∃ t', Followed placements base (exported placements (visits ++ [v]))
      (exportVisit placements s v) t' := by
  have hturn := turn_exportVisit placements s v
  generalize exportVisit placements s v = s' at hturn
  cases hturn with
  | jump hnone =>
    rw [exported_of_none hnone]
    exact ⟨t, h.context (fun _ => rfl) _⟩
  | gap hnone =>
    rw [exported_of_none hnone]
    exact ⟨t, h.context (fun _ => rfl) _⟩
  | skip hnone =>
    rw [exported_of_none hnone]
    exact ⟨t, h.skip⟩
  | revisit pid p i hp hset hdriven =>
    obtain ⟨e, he, rfl, hblock⟩ := h.revisited hp hset hdriven
    rw [exported_of_known hblock ⟨e, List.mem_of_getElem? he, rfl⟩]
    exact ⟨_, h.revisit v he⟩
  | place e hdriven hp hc hset =>
    rw [exported_of_new hdriven (h.unplaced hset)] at hbase ⊢
    refine ⟨_, h.place hp hc fun hnil => ?_⟩
    rw [hnil] at hbase
    exact hbase _ rfl

/-- The first exported placement stays the first. -/
theorem exported_head_of_concat {visits : List BlockVisit} {v : BlockVisit}
    (hbase : ∀ e ∈ (exported placements (visits ++ [v])).head?, e.2.2 = base) :
    ∀ e ∈ (exported placements visits).head?, e.2.2 = base := by
  intro e he
  refine hbase e ?_
  rw [exported_concat]
  split
  · exact he
  · split
    · exact he
    · exact List.mem_head?_append_of_mem_head? he

/-- The tokens decode to what has been exported. -/
theorem exists_followed (placements : Dict Int (ExportPlacement σ)) (visits : List BlockVisit)
    (stats : ExportStats) {base : Cell}
    (hbase : ∀ e ∈ (exported placements visits).head?, e.2.2 = base) :
    ∃ t, Followed placements base (exported placements visits)
      (exportVisits visits placements stats) t := by
  induction visits using List.reverseRecOn with
  | nil => exact ⟨_, Followed.start base stats⟩
  | append_singleton visits v ih =>
    obtain ⟨t, ht⟩ := ih (exported_head_of_concat hbase)
    unfold exportVisits at ht ⊢
    rw [List.foldl_append]
    exact ht.visit v hbase

/-- The blocks that a car drove over are built. -/
theorem built_visits (placements : Dict Int (ExportPlacement σ)) (visits : List BlockVisit)
    (stats : ExportStats) :
    Built (visitsToTokens visits placements stats).1
      ((exported placements visits).map exportItem) := by
  obtain ⟨base, hbase⟩ : ∃ base, ∀ e ∈ (exported placements visits).head?, e.2.2 = base := by
    cases (exported placements visits).head? with
    | none => exact ⟨⟨0, 0, 0⟩, fun _ he => by cases he⟩
    | some e => exact ⟨e.2.2, fun e' he' => by rw [Option.mem_some.mp he']⟩
  obtain ⟨t, ht⟩ := exists_followed placements visits stats hbase
  exact built_of_rawCells ht.read ht.raw

/-- What is exported is what is built, from the visits of a capture and from the blocks of a map. -/
theorem what_is_exported_is_built (placements : Dict Int (ExportPlacement σ))
    (visits : List BlockVisit) (stats : ExportStats) (blocks : List RawBlock) :
    Built (visitsToTokens visits placements stats).1
        ((exported placements visits).map exportItem) ∧
      Built (blocksToTokens blocks) (blocks.map RawBlock.item) :=
  ⟨built_visits placements visits stats, built_blocks blocks⟩

end

end TraxMania.Learning
