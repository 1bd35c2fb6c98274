import TraxMania.Grid.Cell
import TraxMania.Lib.Dict
import Mathlib.Algebra.Order.Group.Unbundled.Int

/-
  The structural checks of a block list: footprints with empty cells, gaps between route cells,
  route cells without a block, elevated cells without support, and the spawn cell.

  The check of footprints reports every cell of a footprint behind its origin
  (`mem_checkPartialMulticell_iff`), so an overlap is silent when it is origin on origin and no
  shadow covers it (`overlap_reported_iff`).
-/

namespace TraxMania.Generation.Validation

open TraxMania.Grid Lib

/-! ## Blocks and their geometry -/

/-- A grid block of a map; the wrapper shape and the database shape differ in the names of the
    first two keys only. -/
structure MapBlock where
  family : String
  name : String
  x : Int
  y : Int
  z : Int
  rotation : Int
deriving DecidableEq

def MapBlock.cell (b : MapBlock) : Cell := ⟨b.x, b.y, b.z⟩

/-- `shape_class`. -/
inductive ShapeClass where
  | straight
  | curve
  | ramp
  | loop
  | platform
  | support
  | deco
  | start
  | checkpoint
  | finish
  | gate
  | unknown
deriving DecidableEq

/-- The columns of `block_geometry` that the checks read. -/
structure GeometryInfo where
  footprintX : Int
  shapeClass : ShapeClass
  isAnchorCapable : Bool

/-- `geometry_lookup`, keyed by family and name. -/
abbrev GeometryLookup := Dict (String × String) GeometryInfo

def MapBlock.info? (lookup : GeometryLookup) (b : MapBlock) : Option GeometryInfo :=
  lookup.get? (b.family, b.name)

/-! ## Findings -/

inductive Severity where
  | info
  | warn
  | fail
deriving DecidableEq

inductive FindingCode where
  | partialMulticell
  | routeGap
  | routeCellMissingBlock
  | missingSupport
  | spawnIntersect
deriving DecidableEq

structure Finding where
  severity : Severity
  code : FindingCode
  cell : Cell
deriving DecidableEq

/-- `_chebyshev`. -/
def chebyshev (a b : Cell) : Int := max (max |a.x - b.x| |a.y - b.y|) |a.z - b.z|

theorem chebyshev_le_iff {a b : Cell} {r : Int} :
    chebyshev a b ≤ r ↔ |a.x - b.x| ≤ r ∧ |a.y - b.y| ≤ r ∧ |a.z - b.z| ≤ r := by
  unfold chebyshev
  rw [max_le_iff, max_le_iff, and_assoc]

theorem chebyshev_triangle {a b c : Cell} {r s : Int} (hab : chebyshev a b ≤ r)
    (hbc : chebyshev b c ≤ s) : chebyshev a c ≤ r + s := by
  simp only [chebyshev_le_iff, Int.abs_eq_natAbs] at *
  omega

/-- `cell_to_block`: the first block of each cell, with its place in the list. -/
def cellToBlock (blocks : List MapBlock) : Dict Cell (MapBlock × Nat) :=
  blocks.zipIdx.foldl (fun d b => d.setdefault b.1.cell b) Dict.empty

/-- `_footprint_shadow_cells`. -/
def footprintShadowCells (origin : Cell) (rotation footprintX : Int) : List Cell :=
  if footprintX ≤ 1 then [origin]
  else
    let steps : List Int := (List.range footprintX.toNat).map Int.ofNat
    match rotation % 4 with
    | 0 => steps.map fun i => ⟨origin.x + i, origin.y, origin.z⟩
    | 1 => steps.map fun i => ⟨origin.x, origin.y, origin.z + i⟩
    | 2 => steps.map fun i => ⟨origin.x - i, origin.y, origin.z⟩
    | _ => steps.map fun i => ⟨origin.x, origin.y, origin.z - i⟩

/-! ## The checks -/

/-- `check_partial_multicell`. -/
def checkPartialMulticell (blocks : List MapBlock) (lookup : GeometryLookup) : List Finding :=
  let occupants := cellToBlock blocks
  blocks.zipIdx.flatMap fun (block, place) =>
    match block.info? lookup with
    | none => []
    | some info =>
      if info.footprintX ≤ 1 then []
      else
        (footprintShadowCells block.cell block.rotation info.footprintX).tail.filterMap fun shadow =>
          match occupants.get? shadow with
          | none => some ⟨.fail, .partialMulticell, shadow⟩
          | some (_, other) =>
            if other = place then none else some ⟨.warn, .partialMulticell, shadow⟩

/-- `check_route_continuity`. -/
def checkRouteContinuity (route : List Cell) (maxStepCheb : Int) : List Finding :=
  (route.zip route.tail).filterMap fun (a, b) =>
    if maxStepCheb < chebyshev a b then some ⟨.warn, .routeGap, b⟩ else none

/-- `check_route_cells_have_blocks`. -/
def checkRouteCellsHaveBlocks (route : List Cell) (occupants : Dict Cell (MapBlock × Nat)) :
    List Finding :=
  route.filterMap fun cell =>
    match occupants.get? cell with
    | none => some ⟨.fail, .routeCellMissingBlock, cell⟩
    | some _ => none

/-- `_SELF_SUPPORTING_SHAPES`. -/
def selfSupportingShapes : List ShapeClass :=
  [.ramp, .loop, .platform, .start, .checkpoint, .finish]

/-- `check_missing_support`. -/
def checkMissingSupport (route : List Cell) (occupants : Dict Cell (MapBlock × Nat))
    (lookup : GeometryLookup) (groundY : Int) : List Finding :=
  route.filterMap fun cell =>
    if cell.y ≤ groundY then none
    else
      match occupants.get? cell with
      | none => none
      | some (block, _) =>
        if (block.info? lookup).any fun info => info.shapeClass ∈ selfSupportingShapes then none
        else
          match occupants.get? ⟨cell.x, cell.y - 1, cell.z⟩ with
          | none => some ⟨.warn, .missingSupport, cell⟩
          | some _ => none

/-- `check_spawn_intersect`. -/
def checkSpawnIntersect (spawnCell : Option Cell) (occupants : Dict Cell (MapBlock × Nat))
    (lookup : GeometryLookup) : List Finding :=
  match spawnCell with
  | none => []
  | some spawn =>
    let headroom : Cell := ⟨spawn.x, spawn.y + 1, spawn.z⟩
    (match occupants.get? spawn with
      | none => []
      | some (block, _) =>
        if (block.info? lookup).any GeometryInfo.isAnchorCapable then []
        else [⟨.fail, .spawnIntersect, spawn⟩]) ++
    match occupants.get? headroom with
    | none => []
    | some _ => [⟨.fail, .spawnIntersect, headroom⟩]

/-- The findings of `validate_map_geometry`. -/
def validateMapGeometry (blocks : List MapBlock) (lookup : GeometryLookup) (route : List Cell)
    (spawnCell : Option Cell) (groundY maxRouteStepCheb : Int) : List Finding :=
  let occupants := cellToBlock blocks
  checkPartialMulticell blocks lookup ++
    (if route.isEmpty then []
    else
      checkRouteContinuity route maxRouteStepCheb ++ checkRouteCellsHaveBlocks route occupants ++
        checkMissingSupport route occupants lookup groundY) ++
    checkSpawnIntersect spawnCell occupants lookup

/-- `by_code`. -/
def byCode (findings : List Finding) (code : FindingCode) : List Finding :=
  findings.filter fun f => decide (f.code = code)

theorem mem_byCode {findings : List Finding} {code : FindingCode} {f : Finding} :
    f ∈ byCode findings code ↔ f ∈ findings ∧ f.code = code := by
  unfold byCode
  rw [List.mem_filter, decide_eq_true_iff]

theorem byCode_append (findings more : List Finding) (code : FindingCode) :
    byCode (findings ++ more) code = byCode findings code ++ byCode more code :=
  List.filter_append findings more

theorem byCode_of_forall {findings : List Finding} {own : FindingCode}
    (h : ∀ f ∈ findings, f.code = own) (code : FindingCode) :
    byCode findings code = if own = code then findings else [] := by
  unfold byCode
  by_cases hcode : own = code
  · rw [if_pos hcode, List.filter_eq_self]
    intro f hf
    exact decide_eq_true ((h f hf).trans hcode)
  · rw [if_neg hcode, List.filter_eq_nil_iff]
    intro f hf
    rw [h f hf, decide_eq_true_iff]
    exact hcode

/-- The findings of a code in a whole report are those of its check. -/
theorem byCode_validateMapGeometry (blocks : List MapBlock) (lookup : GeometryLookup)
    (route : List Cell) (spawn : Option Cell) (groundY maxStep : Int) (code : FindingCode) :
    byCode (validateMapGeometry blocks lookup route spawn groundY maxStep) code =
      match code with
      | .partialMulticell => checkPartialMulticell blocks lookup
      | .routeGap => checkRouteContinuity route maxStep
      | .routeCellMissingBlock => checkRouteCellsHaveBlocks route (cellToBlock blocks)
      | .missingSupport => checkMissingSupport route (cellToBlock blocks) lookup groundY
      | .spawnIntersect => checkSpawnIntersect spawn (cellToBlock blocks) lookup := by
  have hpartial : ∀ f ∈ checkPartialMulticell blocks lookup, f.code = .partialMulticell := by
    intro f hf
    obtain ⟨⟨block, place⟩, -, hf⟩ := List.mem_flatMap.mp hf
    grind
  have hgap : ∀ f ∈ checkRouteContinuity route maxStep, f.code = .routeGap := by
    intro f hf
    obtain ⟨step, -, hf⟩ := List.mem_filterMap.mp hf
    grind
  have hmissing : ∀ f ∈ checkRouteCellsHaveBlocks route (cellToBlock blocks),
      f.code = .routeCellMissingBlock := by
    intro f hf
    obtain ⟨cell, -, hf⟩ := List.mem_filterMap.mp hf
    grind
  have hsupport : ∀ f ∈ checkMissingSupport route (cellToBlock blocks) lookup groundY,
      f.code = .missingSupport := by
    intro f hf
    obtain ⟨cell, -, hf⟩ := List.mem_filterMap.mp hf
    grind
  have hspawn : ∀ f ∈ checkSpawnIntersect spawn (cellToBlock blocks) lookup,
      f.code = .spawnIntersect := by
    intro f hf
    unfold checkSpawnIntersect at hf
    grind
  have hwhole : validateMapGeometry blocks lookup route spawn groundY maxStep =
      checkPartialMulticell blocks lookup ++ (checkRouteContinuity route maxStep ++
        checkRouteCellsHaveBlocks route (cellToBlock blocks) ++
          checkMissingSupport route (cellToBlock blocks) lookup groundY) ++
        checkSpawnIntersect spawn (cellToBlock blocks) lookup := by
    cases route <;> rfl
  rw [hwhole, byCode_append, byCode_append, byCode_append, byCode_append,
    byCode_of_forall hpartial, byCode_of_forall hgap, byCode_of_forall hmissing,
    byCode_of_forall hsupport, byCode_of_forall hspawn]
  cases code <;> simp

/-! ## Overlaps -/

/-- The footprint of a block, one cell when its geometry is unknown. -/
def MapBlock.footprint (lookup : GeometryLookup) (b : MapBlock) : List Cell :=
  match b.info? lookup with
  | none => [b.cell]
  | some info => footprintShadowCells b.cell b.rotation info.footprintX

/-- The block is known to have more than one cell. -/
def MapBlock.Multicell (lookup : GeometryLookup) (b : MapBlock) : Prop :=
  ∃ info, b.info? lookup = some info ∧ 1 < info.footprintX

/-- Where the footprint of a turned block runs. -/
def shadowStep (rotation : Int) : Cell :=
  match rotation % 4 with
  | 0 => ⟨1, 0, 0⟩
  | 1 => ⟨0, 0, 1⟩
  | 2 => ⟨-1, 0, 0⟩
  | _ => ⟨0, 0, -1⟩

/-- The cell `i` steps behind an origin. -/
def shadowCell (origin : Cell) (rotation : Int) (i : Nat) : Cell :=
  ⟨origin.x + i * (shadowStep rotation).x, origin.y, origin.z + i * (shadowStep rotation).z⟩

theorem rotation_cases (rotation : Int) :
    rotation % 4 = 0 ∨ rotation % 4 = 1 ∨ rotation % 4 = 2 ∨ rotation % 4 = 3 := by
  omega

theorem footprintShadowCells_eq_map {footprintX : Int} (h : 1 < footprintX) (origin : Cell)
    (rotation : Int) : footprintShadowCells origin rotation footprintX =
      (List.range footprintX.toNat).map (shadowCell origin rotation) := by
  unfold footprintShadowCells
  rw [if_neg (not_le.mpr h)]
  obtain hr | hr | hr | hr := rotation_cases rotation <;>
    simp [hr, shadowCell, shadowStep, Function.comp_def, sub_eq_add_neg]

theorem shadowCell_zero (origin : Cell) (rotation : Int) :
    shadowCell origin rotation 0 = origin := by
  simp [shadowCell]

/-- Two footprints from one origin meet behind it only if they run the same way. -/
theorem shadowCell_eq_iff {origin : Cell} {rotation rotation' : Int} {i j : Nat} (hi : 0 < i) :
    shadowCell origin rotation i = shadowCell origin rotation' j ↔
      i = j ∧ rotation % 4 = rotation' % 4 := by
  obtain hr | hr | hr | hr := rotation_cases rotation <;>
    obtain hr' | hr' | hr' | hr' := rotation_cases rotation' <;>
    simp [shadowCell, shadowStep, hr, hr'] <;> omega

theorem shadowCell_ne_origin {origin : Cell} {rotation : Int} {i : Nat} (hi : 0 < i) :
    shadowCell origin rotation i ≠ origin := by
  intro h
  have heq := h.trans (shadowCell_zero origin rotation).symm
  have hzero := ((shadowCell_eq_iff hi).mp heq).1
  omega

theorem chebyshev_shadowCell_le (origin : Cell) (rotation : Int) (i : Nat) :
    chebyshev origin (shadowCell origin rotation i) ≤ i := by
  simp only [chebyshev_le_iff, Int.abs_eq_natAbs]
  obtain hr | hr | hr | hr := rotation_cases rotation <;>
    simp [shadowCell, shadowStep, hr]

variable {blocks : List MapBlock} {lookup : GeometryLookup} {a b : MapBlock} {c : Cell}

theorem origin_mem_footprint (lookup : GeometryLookup) (b : MapBlock) :
    b.cell ∈ b.footprint lookup := by
  unfold MapBlock.footprint
  cases b.info? lookup with
  | none => exact List.mem_singleton.mpr rfl
  | some info =>
    dsimp only
    by_cases h : 1 < info.footprintX
    · rw [footprintShadowCells_eq_map h]
      exact List.mem_map.mpr ⟨0, List.mem_range.mpr (by omega), shadowCell_zero _ _⟩
    · rw [footprintShadowCells, if_pos (not_lt.mp h)]
      exact List.mem_singleton.mpr rfl

/-- The cells behind the origin of a footprint. -/
theorem mem_tail_footprint_iff : c ∈ (b.footprint lookup).tail ↔
    ∃ info, b.info? lookup = some info ∧ 1 < info.footprintX ∧
      ∃ i : Nat, 0 < i ∧ (i : Int) < info.footprintX ∧ c = shadowCell b.cell b.rotation i := by
  unfold MapBlock.footprint
  cases hinfo : b.info? lookup with
  | none => simp
  | some info =>
    simp only [Option.some.injEq, exists_eq_left']
    by_cases h : 1 < info.footprintX
    · obtain ⟨n, hn⟩ : ∃ n : Nat, info.footprintX.toNat = n + 1 :=
        ⟨info.footprintX.toNat - 1, by omega⟩
      rw [footprintShadowCells_eq_map h, hn, List.range_succ_eq_map, List.map_cons, List.tail_cons,
        List.map_map]
      simp only [h, true_and, List.mem_map, List.mem_range, Function.comp_apply]
      constructor
      · intro hc
        obtain ⟨i, hi, rfl⟩ := hc
        exact ⟨i + 1, by omega, by omega, rfl⟩
      · intro hc
        obtain ⟨i, hi, hlt, rfl⟩ := hc
        exact ⟨i - 1, by omega, by rw [Nat.succ_eq_add_one, Nat.sub_add_cancel hi]⟩
    · rw [footprintShadowCells, if_pos (not_lt.mp h)]
      simp [h]

theorem mem_footprint_iff : c ∈ b.footprint lookup ↔
    c = b.cell ∨ c ∈ (b.footprint lookup).tail := by
  constructor
  · intro hc
    rw [mem_tail_footprint_iff]
    unfold MapBlock.footprint at hc
    cases hinfo : b.info? lookup with
    | none =>
      rw [hinfo] at hc
      exact Or.inl (List.mem_singleton.mp hc)
    | some info =>
      rw [hinfo] at hc
      by_cases h : 1 < info.footprintX
      · dsimp only at hc
        rw [footprintShadowCells_eq_map h] at hc
        obtain ⟨i, hi, rfl⟩ := List.mem_map.mp hc
        rw [List.mem_range] at hi
        by_cases hzero : i = 0
        · exact Or.inl (by rw [hzero, shadowCell_zero])
        · exact Or.inr ⟨info, rfl, h, i, by omega, by omega, rfl⟩
      · dsimp only at hc
        rw [footprintShadowCells, if_pos (not_lt.mp h)] at hc
        exact Or.inl (List.mem_singleton.mp hc)
  · intro hc
    obtain rfl | hc := hc
    · exact origin_mem_footprint lookup b
    · exact List.mem_of_mem_tail hc

/-- The index holds the first block of a cell. -/
theorem get?_cellToBlock (blocks : List MapBlock) (c : Cell) :
    (cellToBlock blocks).get? c = blocks.zipIdx.find? fun b => decide (b.1.cell = c) := by
  have h : (cellToBlock blocks).get? c =
      (blocks.zipIdx.find? fun b => decide (b.1.cell = c)).map id :=
    Dict.get?_foldl_setdefault blocks.zipIdx c
  rw [h, Option.map_id_fun, id_eq]

theorem occupant_spec {p : MapBlock × Nat} (h : (cellToBlock blocks).get? c = some p) :
    p.1.cell = c ∧ blocks[p.2]? = some p.1 := by
  rw [get?_cellToBlock] at h
  have hat := List.find?_some h
  refine ⟨of_decide_eq_true hat, ?_⟩
  exact List.mem_zipIdx_iff_getElem?.mp (List.mem_of_find?_eq_some h)

/-- Every cell of a footprint behind its origin has a finding: it is empty, or the block there is
    another one, as a block never reaches its own origin again. -/
theorem mem_checkPartialMulticell_iff :
    (∃ f ∈ checkPartialMulticell blocks lookup, f.cell = c) ↔
      ∃ b ∈ blocks, c ∈ (b.footprint lookup).tail := by
  unfold checkPartialMulticell
  constructor
  · intro h
    obtain ⟨f, hf, rfl⟩ := h
    obtain ⟨⟨block, place⟩, hmem, hf⟩ := List.mem_flatMap.mp hf
    have hblock : block ∈ blocks :=
      List.mem_of_getElem? (List.mem_zipIdx_iff_getElem?.mp hmem)
    refine ⟨block, hblock, ?_⟩
    cases hinfo : block.info? lookup with
    | none => simp [hinfo] at hf
    | some info =>
      simp only [hinfo] at hf
      split at hf
      · simp at hf
      · obtain ⟨shadow, hshadow, hf⟩ := List.mem_filterMap.mp hf
        have hcell : f.cell = shadow := by grind
        rw [hcell, MapBlock.footprint, hinfo]
        exact hshadow
  · intro h
    obtain ⟨b, hb, hc⟩ := h
    obtain ⟨place, hplace⟩ := List.mem_iff_getElem?.mp hb
    obtain ⟨info, hinfo, hlong, i, hi, -, hshadow⟩ := mem_tail_footprint_iff.mp hc
    have hne : c ≠ b.cell := hshadow ▸ shadowCell_ne_origin hi
    rw [MapBlock.footprint, hinfo] at hc
    obtain ⟨f, hfind, hcell⟩ : ∃ f : Finding, (match (cellToBlock blocks).get? c with
        | none => some ⟨.fail, .partialMulticell, c⟩
        | some (_, other) =>
          if other = place then none else some ⟨.warn, .partialMulticell, c⟩) = some f ∧
        f.cell = c := by
      cases hocc : (cellToBlock blocks).get? c with
      | none => exact ⟨_, rfl, rfl⟩
      | some p =>
        obtain ⟨hat, hpos⟩ := occupant_spec hocc
        have hother : p.2 ≠ place := by
          intro heq
          rw [heq, hplace, Option.some.injEq] at hpos
          exact hne (hpos ▸ hat.symm)
        exact ⟨_, if_neg hother, rfl⟩
    have hmem : (b, place) ∈ blocks.zipIdx := List.mem_zipIdx_iff_getElem?.mpr hplace
    refine ⟨f, List.mem_flatMap.mpr ⟨(b, place), hmem, ?_⟩, hcell⟩
    simp only [hinfo, if_neg (not_le.mpr hlong)]
    exact List.mem_filterMap.mpr ⟨c, hc, hfind⟩

/-- The findings about footprints in a whole report are those of their check. -/
theorem mem_validateMapGeometry_partialMulticell {route : List Cell} {spawn : Option Cell}
    {groundY maxStep : Int} :
    (∃ f ∈ validateMapGeometry blocks lookup route spawn groundY maxStep,
        f.code = .partialMulticell ∧ f.cell = c) ↔
      ∃ b ∈ blocks, c ∈ (b.footprint lookup).tail := by
  rw [← mem_checkPartialMulticell_iff]
  have hcode : byCode (validateMapGeometry blocks lookup route spawn groundY maxStep)
      .partialMulticell = checkPartialMulticell blocks lookup :=
    byCode_validateMapGeometry blocks lookup route spawn groundY maxStep .partialMulticell
  constructor
  · intro h
    obtain ⟨f, hf, hpartial, hcell⟩ := h
    exact ⟨f, hcode ▸ mem_byCode.mpr ⟨hf, hpartial⟩, hcell⟩
  · intro h
    obtain ⟨f, hf, hcell⟩ := h
    obtain ⟨hf, hpartial⟩ := mem_byCode.mp (hcode ▸ hf)
    exact ⟨f, hf, hpartial, hcell⟩

/-- A finding about footprints is at a cell that the footprints of the two blocks share. -/
def OverlapReported (findings : List Finding) (lookup : GeometryLookup) (a b : MapBlock) : Prop :=
  ∃ f ∈ findings, f.code = .partialMulticell ∧
    f.cell ∈ a.footprint lookup ∧ f.cell ∈ b.footprint lookup

theorem overlapReported_iff_covered {route : List Cell} {spawn : Option Cell}
    {groundY maxStep : Int} :
    OverlapReported (validateMapGeometry blocks lookup route spawn groundY maxStep) lookup a b ↔
      ∃ s, s ∈ a.footprint lookup ∧ s ∈ b.footprint lookup ∧
        ∃ o ∈ blocks, s ∈ (o.footprint lookup).tail := by
  constructor
  · intro h
    obtain ⟨f, hf, hcode, hfa, hfb⟩ := h
    exact ⟨f.cell, hfa, hfb, mem_validateMapGeometry_partialMulticell.mp ⟨f, hf, hcode, rfl⟩⟩
  · intro h
    obtain ⟨s, hsa, hsb, ho⟩ := h
    obtain ⟨f, hf, hcode, rfl⟩ := mem_validateMapGeometry_partialMulticell.mpr ho
    exact ⟨f, hf, hcode, hsa, hsb⟩

/-- A shared cell that is not the origin of both is behind the origin of one of them. -/
theorem shared_mem_tail (hne : a.cell ≠ b.cell) (hca : c ∈ a.footprint lookup)
    (hcb : c ∈ b.footprint lookup) :
    c ∈ (a.footprint lookup).tail ∨ c ∈ (b.footprint lookup).tail := by
  obtain rfl | htail := mem_footprint_iff.mp hca
  · obtain hcell | htail := mem_footprint_iff.mp hcb
    · exact absurd hcell hne
    · exact Or.inr htail
  · exact Or.inl htail

/-- Two footprints from one origin share a cell behind it if and only if both have one there and
    run the same way. -/
theorem exists_shared_tail_iff (hcell : a.cell = b.cell) :
    (∃ s, s ∈ (a.footprint lookup).tail ∧ s ∈ b.footprint lookup) ↔
      a.Multicell lookup ∧ b.Multicell lookup ∧ a.rotation % 4 = b.rotation % 4 := by
  constructor
  · intro h
    obtain ⟨s, hsa, hsb⟩ := h
    obtain ⟨infoA, hinfoA, hlongA, i, hi, -, rfl⟩ := mem_tail_footprint_iff.mp hsa
    obtain hsb | hsb := mem_footprint_iff.mp hsb
    · exact absurd (hsb.trans hcell.symm) (shadowCell_ne_origin hi)
    · obtain ⟨infoB, hinfoB, hlongB, j, -, -, heq⟩ := mem_tail_footprint_iff.mp hsb
      rw [← hcell] at heq
      exact ⟨⟨infoA, hinfoA, hlongA⟩, ⟨infoB, hinfoB, hlongB⟩, ((shadowCell_eq_iff hi).mp heq).2⟩
  · intro h
    obtain ⟨⟨infoA, hinfoA, hlongA⟩, ⟨infoB, hinfoB, hlongB⟩, hrot⟩ := h
    refine ⟨shadowCell a.cell a.rotation 1,
      mem_tail_footprint_iff.mpr ⟨infoA, hinfoA, hlongA, 1, by omega, hlongA, rfl⟩,
      List.mem_of_mem_tail
        (mem_tail_footprint_iff.mpr ⟨infoB, hinfoB, hlongB, 1, by omega, hlongB, ?_⟩)⟩
    rw [← hcell]
    exact (shadowCell_eq_iff Nat.one_pos).mpr ⟨rfl, hrot⟩

/-- An overlap is reported unless it is of the two origins alone and no footprint covers them: the
    index keeps the first block of the cell, and no block looks its own origin up. -/
theorem overlap_reported_iff {route : List Cell} {spawn : Option Cell}
    {groundY maxStep : Int} (ha : a ∈ blocks)
    (hb : b ∈ blocks) (hca : c ∈ a.footprint lookup) (hcb : c ∈ b.footprint lookup) :
    OverlapReported (validateMapGeometry blocks lookup route spawn groundY maxStep) lookup a b ↔
      a.cell ≠ b.cell ∨
      (a.Multicell lookup ∧ b.Multicell lookup ∧ a.rotation % 4 = b.rotation % 4) ∨
      ∃ o ∈ blocks, a.cell ∈ (o.footprint lookup).tail := by
  rw [overlapReported_iff_covered]
  by_cases hcell : a.cell = b.cell
  · rw [← exists_shared_tail_iff hcell]
    constructor
    · intro h
      obtain ⟨s, hsa, hsb, ho⟩ := h
      obtain rfl | hsa := mem_footprint_iff.mp hsa
      · exact Or.inr (Or.inr ho)
      · exact Or.inr (Or.inl ⟨s, hsa, hsb⟩)
    · intro h
      obtain hne | ⟨s, hsa, hsb⟩ | ho := h
      · exact absurd hcell hne
      · exact ⟨s, List.mem_of_mem_tail hsa, hsb, a, ha, hsa⟩
      · exact ⟨a.cell, origin_mem_footprint lookup a, hcell ▸ origin_mem_footprint lookup b, ho⟩
  · refine iff_of_true ?_ (Or.inl hcell)
    obtain htail | htail := shared_mem_tail hcell hca hcb
    · exact ⟨c, hca, hcb, a, ha, htail⟩
    · exact ⟨c, hca, hcb, b, hb, htail⟩

/-- Two blocks of a family that the lookup does not know, in one cell. -/
def stackedBlocks : List MapBlock :=
  [⟨"RoadTech", "RoadTechStraight", 4, 9, 4, 0⟩, ⟨"RoadDirt", "RoadDirtStraight", 4, 9, 4, 1⟩]

/-- A long block with a short one in its second cell. -/
def coveredBlocks : List MapBlock :=
  [⟨"RoadTech", "RoadTechRamp", 4, 9, 4, 0⟩, ⟨"RoadDirt", "RoadDirtStraight", 5, 9, 4, 1⟩]

def rampLookup : GeometryLookup :=
  Dict.empty.upsert ("RoadTech", "RoadTechRamp") fun _ => ⟨2, .ramp, false⟩

theorem overlap_reported_iff_covered :
    OverlapReported (validateMapGeometry coveredBlocks rampLookup [] none 9 1) rampLookup
        ⟨"RoadTech", "RoadTechRamp", 4, 9, 4, 0⟩ ⟨"RoadDirt", "RoadDirtStraight", 5, 9, 4, 1⟩ :=
  (overlap_reported_iff (c := ⟨5, 9, 4⟩) (by decide) (by decide) (by decide) (by decide)).mpr
    (Or.inl (by decide))

theorem stacked_overlap_silent :
    ∃ (a b : MapBlock) (c : Cell), stackedBlocks[0]? = some a ∧ stackedBlocks[1]? = some b ∧
      c ∈ a.footprint Dict.empty ∧ c ∈ b.footprint Dict.empty ∧
      ¬ OverlapReported (validateMapGeometry stackedBlocks Dict.empty [] none 9 1) Dict.empty a b := by
  refine ⟨⟨"RoadTech", "RoadTechStraight", 4, 9, 4, 0⟩,
    ⟨"RoadDirt", "RoadDirtStraight", 4, 9, 4, 1⟩, ⟨4, 9, 4⟩, rfl, rfl, by decide, by decide, ?_⟩
  intro h
  obtain ⟨f, hf, -⟩ := h
  have hnil : validateMapGeometry stackedBlocks Dict.empty [] none 9 1 = [] := by decide
  rw [hnil] at hf
  exact absurd hf List.not_mem_nil

end TraxMania.Generation.Validation
