import TraxMania.Driven.BlockMatcher
import TraxMania.Generation.Generator
import Mathlib.Algebra.Order.Floor.Ring
import Mathlib.Tactic.Ring

/-
  World metres to grid cells, four times: the block matcher, the item ingester, the exporter and
  the generator's strip. The first three put the ground row at 8 metres; the generator counts rows
  from 0 metres, eight rows lower, so the cube it keeps around a free waypoint is never the one
  around the waypoint.
-/

namespace TraxMania.Driven

open TraxMania.Grid TraxMania.Generation.Generator
  TraxMania.Generation.Strip TraxMania.Generation.Route TraxMania.Generation.Validation

/-! ## The other two readers of the calibration -/

section Readers

variable {σ : Type} [Metres σ]

/-- `derive_cell` of the item ingester, with its own copy of the constants. -/
def deriveCell (absX absY absZ : Option σ) : Option Cell :=
  match absX, absY, absZ with
  | some x, some y, some z => some (calibratedCell (const 32) (const 8) 9 (const 8) ⟨x, y, z⟩)
  | _, _, _ => none

/-- A placement row of the exporter: its grid coordinates or its absolute position. -/
structure ExportRow (σ : Type) where
  cell : Option Cell
  abs : Option (Point σ)

/-- `_cell` of the exporter, with its own copy of the constants. -/
def exportCell (p : ExportRow σ) : Option Cell :=
  match p.cell, p.abs with
  | some cell, _ => some cell
  | none, some pos => some (calibratedCell (const 32) (const 8) 9 (const 8) pos)
  | none, none => none

end Readers

/-! ## Eight rows apart -/

/-- The generator's cell of a position. -/
def snapped (p : Point ℚ) : Cell := snapAbsToGrid p.x p.y p.z

theorem toCell_eq (p : Point ℚ) : toCell p = snapped p + ⟨0, 8, 0⟩ := by
  have hrow : ((9 : Int) : ℚ) + (p.y - ((8 : Int) : ℚ)) / ((8 : Int) : ℚ) =
      p.y / ((8 : Int) : ℚ) + ((8 : Int) : ℚ) := by
    push_cast
    ring
  have hlevel : (((9 : Int) : ℚ) + (p.y - ((8 : Int) : ℚ)) / ((8 : Int) : ℚ)).floor =
      (p.y / ((8 : Int) : ℚ)).floor + 8 := by
    rw [hrow]
    exact Int.floor_add_intCast (p.y / ((8 : Int) : ℚ)) 8
  exact Cell.ext (add_zero _).symm hlevel (add_zero _).symm

theorem toCell_y (p : Point ℚ) : (toCell p).y = (snapped p).y + 8 := congrArg Cell.y (toCell_eq p)

theorem snapped_ne_toCell (p : Point ℚ) : snapped p ≠ toCell p := by
  intro h
  have hy := congrArg Cell.y h
  rw [toCell_y] at hy
  omega

/-- All four readers put a position into one cell. -/
def OneWorldMap (p : Point ℚ) : Prop :=
  exportCell ⟨none, some p⟩ = some (toCell p) ∧
    deriveCell (some p.x) (some p.y) (some p.z) = some (toCell p) ∧ snapped p = toCell p

/-! ## The cube around a free waypoint -/

/-- The cube that the strip keeps around a free waypoint misses the one around its cell. -/
theorem cubes_disjoint {p : Point ℚ} {c : Cell} (h : chebyshev c (toCell p) ≤ 3) :
    c ∉ chebCube (snapped p) anchorRadiusCheb := by
  rw [mem_chebCube, anchorRadiusCheb]
  intro hsnap
  have hup : |c.y - (toCell p).y| ≤ 3 :=
    le_trans (le_trans (le_max_right _ _) (le_max_left _ _)) h
  have hdown : |c.y - (snapped p).y| ≤ 3 :=
    le_trans (le_trans (le_max_right _ _) (le_max_left _ _)) hsnap
  have hy := toCell_y p
  rw [abs_le] at hup hdown
  omega

/-- Anchor cells without the one of a waypoint. -/
def withoutAnchor (cell : Cell) (anchorCells : List Cell) : List Cell :=
  anchorCells.filter fun c => decide (c ≠ cell)

/-- Around a free waypoint the strip keeps what it would keep without the waypoint. -/
theorem mem_computeKeptCells_near {p : Point ℚ} {c : Cell} (h : chebyshev c (toCell p) ≤ 3)
    {σ : Type} (route : AssembledRoute σ) (policy : StripPolicy) (anchorCells : List Cell) :
    c ∈ computeKeptCells route policy anchorCells ↔
      c ∈ computeKeptCells route policy (withoutAnchor (snapped p) anchorCells) := by
  unfold computeKeptCells
  simp only [List.mem_append]
  refine or_congr Iff.rfl ?_
  split
  · rw [List.mem_flatMap, List.mem_flatMap]
    constructor
    · intro ⟨a, ha, hc⟩
      have hne : a ≠ snapped p := by
        intro heq
        exact cubes_disjoint h (heq ▸ hc)
      exact ⟨a, List.mem_filter.mpr ⟨ha, decide_eq_true hne⟩, hc⟩
    · intro ⟨a, ha, hc⟩
      exact ⟨a, List.mem_of_mem_filter ha, hc⟩
  · exact Iff.rfl

/-- A strip under `policy` keeps every grid block within the anchor radius of the cell of `p`. -/
def PreservesAround (route : AssembledRoute ℚ) (blocks : List MapBlock) (policy : StripPolicy)
    (anchorCells : List Cell) (p : Point ℚ) : Prop :=
  ∀ b ∈ blocks, chebyshev b.cell (toCell p) ≤ 3 →
    b ∈ (stripRoute route blocks policy anchorCells).strippedBlocks

theorem mem_strippedBlocks {σ : Type} {route : AssembledRoute σ} {blocks : List MapBlock}
    {policy : StripPolicy} (hpolicy : policy ≠ .none) {anchorCells : List Cell} {b : MapBlock} :
    b ∈ (stripRoute route blocks policy anchorCells).strippedBlocks ↔
      b ∈ blocks ∧ b.cell ∈ computeKeptCells route policy anchorCells := by
  unfold stripRoute filterBlocksByCells
  rw [if_neg hpolicy]
  simp

theorem usesAnchorRadius_ne_none {policy : StripPolicy} (h : policy.usesAnchorRadius = true) :
    policy ≠ .none := by
  rintro rfl
  cases h

theorem preservesAround_iff {p : Point ℚ} {policy : StripPolicy}
    (hpolicy : policy.usesAnchorRadius = true) (route : AssembledRoute ℚ)
    (blocks : List MapBlock) (anchorCells : List Cell) :
    PreservesAround route blocks policy anchorCells p ↔
      PreservesAround route blocks policy (withoutAnchor (snapped p) anchorCells) p := by
  unfold PreservesAround
  refine forall_congr' fun b => forall_congr' fun _ => forall_congr' fun hnear => ?_
  rw [mem_strippedBlocks (usesAnchorRadius_ne_none hpolicy),
    mem_strippedBlocks (usesAnchorRadius_ne_none hpolicy), mem_computeKeptCells_near hnear]

/-- A waypoint row that is placed freely at `p`. -/
structure FreeAt (w : WaypointRow ℚ) (p : Point ℚ) : Prop where
  cell : w.cell = none
  absX : w.absX = some p.x
  absY : w.absY = some p.y
  absZ : w.absZ = some p.z

theorem snapped_mem_anchorCells {rows : MapRows ℚ} {w : WaypointRow ℚ} {p : Point ℚ}
    (hw : w ∈ checkpointsQuery rows.waypoints) (hfree : FreeAt w p) :
    snapped p ∈ (baseMapData rows).anchorCells := by
  refine List.mem_filterMap.mpr ⟨w, hw, ?_⟩
  rw [WaypointRow.anchorCell?, hfree.cell, hfree.absX, hfree.absY, hfree.absZ]
  rfl

/-- At no position do the four readers agree; and a free waypoint, although the strip counts it
    among the anchors, protects none of the blocks around its cell. -/
theorem oneWorldMap_never (p : Point ℚ) :
    ¬ OneWorldMap p ∧
      ∀ (rows : MapRows ℚ) (w : WaypointRow ℚ),
        w ∈ checkpointsQuery rows.waypoints → FreeAt w p →
        snapped p ∈ (baseMapData rows).anchorCells ∧
          ∀ (route : AssembledRoute ℚ) (policy : StripPolicy), policy.usesAnchorRadius = true →
            (PreservesAround route (baseMapData rows).blocks policy (baseMapData rows).anchorCells p
              ↔ PreservesAround route (baseMapData rows).blocks policy
                (withoutAnchor (snapped p) (baseMapData rows).anchorCells) p) := by
  refine ⟨fun h => snapped_ne_toCell p h.2.2, ?_⟩
  intro rows w hw hfree
  refine ⟨snapped_mem_anchorCells hw hfree, ?_⟩
  intro route policy hpolicy
  exact preservesAround_iff hpolicy route _ _

/-- A free start, 24 metres up, with a ramp two cells behind it. -/
def freeStart : MapRows ℚ where
  blockPlacements :=
    [⟨0, some "Road", some "RoadStart", 23, 11, 4, some 0⟩,
      ⟨1, some "Road", some "RoadRamp", 23, 11, 2, some 0⟩,
      ⟨2, some "Road", some "RoadFinish", 23, 11, 6, some 0⟩]
  waypoints :=
    [{ waypointIndex := 0, waypointOrder := 0, tag := "Spawn", x := none, y := none, z := none,
       absX := some 752, absY := some 24, absZ := some 128 },
      { waypointIndex := 1, waypointOrder := 0, tag := "Goal", x := some 23, y := some 11,
        z := some 6, absX := none, absY := none, absZ := none }]
  corridors := []
  ids_nodup := List.nodup_nil

def startPoint : Point ℚ := ⟨752, 24, 128⟩

/-- A route over the three cells from the start to the finish. -/
def shortRoute : AssembledRoute ℚ where
  mapId := 1
  anchors := [⟨"Spawn", 0, none⟩, ⟨"Goal", 0, some ⟨23, 11, 6⟩⟩]
  intervals :=
    [{ index := 0, src := ⟨"Spawn", 0, none⟩, dst := ⟨"Goal", 0, some ⟨23, 11, 6⟩⟩
       chosen :=
        { corridorId := 1, mapId := 1, src := ⟨"Spawn", 0, none⟩
          dst := ⟨"Goal", 0, some ⟨23, 11, 6⟩⟩
          pathCells := [⟨23, 11, 4⟩, ⟨23, 11, 5⟩, ⟨23, 11, 6⟩], pathLength := 3
          containsVirtualEdge := false, corridorConfidence := some 1
          learnedCorridorScore := 1, expectedTimeMs := 3200
          combinedSequenceScore := none, validationScore := none } }]
  cellsTotal := 3
  estimatedTimeMs := 3200
  aiConfidence := 1

theorem freeStart_spawn :
    ∃ w ∈ checkpointsQuery freeStart.waypoints, FreeAt w startPoint :=
  ⟨_, List.mem_cons_self, rfl, rfl, rfl, rfl⟩

/-- Their start is listed and snapped, and yet the strip keeps what it keeps without it. -/
theorem oneWorldMap_never_freeStart :
    ¬ OneWorldMap startPoint ∧
      (PreservesAround shortRoute (baseMapData freeStart).blocks defaultPolicy
          (baseMapData freeStart).anchorCells startPoint ↔
        PreservesAround shortRoute (baseMapData freeStart).blocks defaultPolicy
          (withoutAnchor (snapped startPoint) (baseMapData freeStart).anchorCells) startPoint) := by
  obtain ⟨w, hw, hfree⟩ := freeStart_spawn
  obtain ⟨hnever, hstrip⟩ := oneWorldMap_never startPoint
  exact ⟨hnever, (hstrip freeStart w hw hfree).2 shortRoute defaultPolicy rfl⟩

/-- The start is in cell `(23, 11, 4)` and is snapped to `(23, 3, 4)`; the strip drops the ramp. -/
theorem freeStart_not_preserved :
    toCell startPoint = ⟨23, 11, 4⟩ ∧ snapped startPoint = ⟨23, 3, 4⟩ ∧
      ¬ OneWorldMap startPoint ∧
      ¬ PreservesAround shortRoute (baseMapData freeStart).blocks defaultPolicy
        (baseMapData freeStart).anchorCells startPoint := by
  have hcell : toCell startPoint = ⟨23, 11, 4⟩ := by decide +kernel
  have hsnap : snapped startPoint = ⟨23, 3, 4⟩ := by decide +kernel
  refine ⟨hcell, hsnap, ?_, ?_⟩
  · intro h
    have := h.2.2
    rw [hcell, hsnap] at this
    revert this
    decide
  · intro h
    have hramp : (⟨"Road", "RoadRamp", 23, 11, 2, 0⟩ : MapBlock) ∈
        (baseMapData freeStart).blocks := by decide +kernel
    have hkept := h _ hramp (by rw [hcell]; decide)
    revert hkept
    decide +kernel

end TraxMania.Driven
