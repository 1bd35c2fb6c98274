import Mathlib.Data.Int.Order.Lemmas
import Mathlib.Data.List.ProdSigma
import TraxMania.Generation.GeomValidator

/-
  The jump checks along a route: where the car takes off, which cells of the forward cone it can
  land on, and the class of each jump.
-/

namespace TraxMania.Generation.Validation

open TraxMania.Grid Lib

/-- `JumpConeConfig`; its `__post_init__` checks are the two proofs. -/
structure JumpConeConfig where
  forwardMinCells : Int := 2
  forwardMaxCells : Int := 12
  maxRiseCells : Int := 4
  maxDropCells : Int := 8
  lateralHalfWidth : Int := 2
  forwardMin_pos : 0 < forwardMinCells := by decide
  forwardMin_le : forwardMinCells ≤ forwardMaxCells := by decide

/-- `_TAKEOFF_SHAPES`. -/
def takeoffShapes : List ShapeClass := [.ramp, .loop]

/-- `_LANDING_SHAPES`. -/
def landingShapes : List ShapeClass :=
  [.straight, .curve, .ramp, .platform, .loop, .start, .checkpoint, .finish]

inductive JumpClass where
  | supportedByReplay
  | geometricallyPlausible
  | uncertain
  | likelyBroken
deriving DecidableEq

structure JumpCandidate where
  takeoffCell : Cell
  nextRouteCell : Cell
  takeoffShape : ShapeClass

/-- `range(lo, hi + 1)`. -/
def rangeTo (lo hi : Int) : List Int :=
  (List.range (hi + 1 - lo).toNat).map fun i => lo + (i : Int)

/-- `detect_jump_candidates`. -/
def detectJumpCandidates (route : List Cell) (occupants : Dict Cell (MapBlock × Nat))
    (lookup : GeometryLookup) (minGapCheb : Int) : List JumpCandidate :=
  (route.zip route.tail).filterMap fun (prev, next) =>
    let shape : ShapeClass :=
      match (occupants.get? prev).bind fun b => b.1.info? lookup with
      | some info => info.shapeClass
      | none => .unknown
    if shape ∈ takeoffShapes ∨ minGapCheb ≤ chebyshev prev next then some ⟨prev, next, shape⟩
    else none

/-- `axis`: the dominant horizontal direction towards the next route cell. -/
def forwardAxis (candidate : JumpCandidate) : Int × Int :=
  let dx := candidate.nextRouteCell.x - candidate.takeoffCell.x
  let dz := candidate.nextRouteCell.z - candidate.takeoffCell.z
  if |dz| ≤ |dx| ∧ dx ≠ 0 then (if 0 < dx then 1 else -1, 0)
  else if dz ≠ 0 then (0, if 0 < dz then 1 else -1)
  else (1, 0)

/-- `find_landing_candidates`. -/
def findLandingCandidates (candidate : JumpCandidate) (occupants : Dict Cell (MapBlock × Nat))
    (lookup : GeometryLookup) (cone : JumpConeConfig) : List Cell :=
  let o := candidate.takeoffCell
  let axis := forwardAxis candidate
  (rangeTo cone.forwardMinCells cone.forwardMaxCells).flatMap fun step =>
    (rangeTo (-cone.lateralHalfWidth) cone.lateralHalfWidth).flatMap fun lat =>
      (rangeTo (-cone.maxDropCells) cone.maxRiseCells).filterMap fun dy =>
        let cell : Cell :=
          ⟨o.x + axis.1 * step - axis.2 * lat, o.y + dy, o.z + axis.2 * step + axis.1 * lat⟩
        match (occupants.get? cell).bind fun b => b.1.info? lookup with
        | none => none
        | some info => if info.shapeClass ∈ landingShapes then some cell else none

/-- `classify_jump`. -/
def classifyJump (candidate : JumpCandidate) (landings : List Cell)
    (replayTouchedCells : Option (List Cell)) : JumpClass :=
  let supported := replayTouchedCells.any fun cells =>
    decide (candidate.takeoffCell ∈ cells) &&
      cells.any fun c => chebyshev candidate.nextRouteCell c ≤ 1
  if supported then .supportedByReplay
  else if landings.isEmpty then
    if candidate.takeoffShape ∈ takeoffShapes then .likelyBroken else .uncertain
  else if landings.any fun c => chebyshev candidate.nextRouteCell c ≤ 1 then
    .geometricallyPlausible
  else .uncertain

/-- The classes of `validate_jumps`, one for each candidate. -/
def validateJumps (blocks : List MapBlock) (lookup : GeometryLookup) (route : List Cell)
    (replayTouchedCells : Option (List Cell)) (cone : JumpConeConfig) (minGapCheb : Int) :
    List JumpClass :=
  let occupants := cellToBlock blocks
  (detectJumpCandidates route occupants lookup minGapCheb).map fun candidate =>
    classifyJump candidate (findLandingCandidates candidate occupants lookup cone)
      replayTouchedCells

end TraxMania.Generation.Validation

/-
  The landing search as a box of cells: along the dominant horizontal axis where the next cell gives
  one, and what a quarter turn of the layout does to it where the next cell is straight above or
  below.
-/

namespace TraxMania.Generation.Validation

open TraxMania.Grid Lib

/-! ## The box -/

/-- The next cell is straight above or below, or the takeoff cell itself. -/
def Upright (candidate : JumpCandidate) : Prop :=
  candidate.nextRouteCell.x = candidate.takeoffCell.x ∧
    candidate.nextRouteCell.z = candidate.takeoffCell.z

/-- A landing-class block stands in the cell. -/
def Lands (occupants : Dict Cell (MapBlock × Nat)) (lookup : GeometryLookup) (c : Cell) : Prop :=
  ∃ info, ((occupants.get? c).bind fun b => b.1.info? lookup) = some info ∧
    info.shapeClass ∈ landingShapes

/-- The box of a cone along X: so many cells forward, sideways, below and above. -/
def InBox (cone : JumpConeConfig) (forward sideways rise : Int) : Prop :=
  (cone.forwardMinCells ≤ forward ∧ forward ≤ cone.forwardMaxCells) ∧
    |sideways| ≤ cone.lateralHalfWidth ∧ -cone.maxDropCells ≤ rise ∧ rise ≤ cone.maxRiseCells

/-- The cell lies in the box along the dominant horizontal axis towards the next cell, X where
neither is. -/
def InCone (candidate : JumpCandidate) (cone : JumpConeConfig) (c : Cell) : Prop :=
  let towards := candidate.nextRouteCell - candidate.takeoffCell
  let d := c - candidate.takeoffCell
  if |towards.z| ≤ |towards.x| then InBox cone (towards.x.sign * d.x) d.z d.y
  else InBox cone (towards.z.sign * d.z) d.x d.y

/-! ## What the three loops list -/

theorem rangeTo_eq (lo hi : Int) :
    rangeTo lo hi = (List.range (hi + 1 - lo).toNat).map fun (i : Nat) => lo + (i : Int) := by
  have hcast : (List.range (hi + 1 - lo).toNat).flatMap (fun (i : Nat) => pure (i : Int)) =
      (List.range (hi + 1 - lo).toNat).map fun (i : Nat) => (i : Int) :=
    List.flatMap_pure_eq_map _ _
  unfold rangeTo
  rw [List.bind_eq_flatMap, hcast, List.map_map]
  rfl

theorem mem_rangeTo {lo hi y : Int} : y ∈ rangeTo lo hi ↔ lo ≤ y ∧ y ≤ hi := by
  rw [rangeTo_eq, List.mem_map]
  constructor
  · intro ⟨i, hi', h⟩
    rw [List.mem_range] at hi'
    omega
  · intro h
    exact ⟨(y - lo).toNat, List.mem_range.mpr (by omega), by omega⟩

theorem rangeTo_nodup (lo hi : Int) : (rangeTo lo hi).Nodup := by
  rw [rangeTo_eq]
  refine List.Nodup.map ?_ List.nodup_range
  intro i j h
  have hij : lo + (i : Int) = lo + (j : Int) := h
  omega

/-- The cell at a step, a lateral offset and a height. -/
def coneCell (o : Cell) (axis : Int × Int) (step lat dy : Int) : Cell :=
  ⟨o.x + axis.1 * step - axis.2 * lat, o.y + dy, o.z + axis.2 * step + axis.1 * lat⟩

/-- A direction along X or along Z. -/
def IsAxis (axis : Int × Int) : Prop :=
  axis = (1, 0) ∨ axis = (-1, 0) ∨ axis = (0, 1) ∨ axis = (0, -1)

theorem isAxis_forwardAxis (candidate : JumpCandidate) : IsAxis (forwardAxis candidate) := by
  unfold forwardAxis IsAxis
  dsimp only
  split
  · split <;> simp
  · split
    · split <;> simp
    · simp

/-- Forward and sideways of a cell, along an axis. -/
theorem coneCell_eq_iff {o c : Cell} {axis : Int × Int} (haxis : IsAxis axis) {step lat dy : Int} :
    coneCell o axis step lat dy = c ↔
      step = axis.1 * (c.x - o.x) + axis.2 * (c.z - o.z) ∧
        lat = axis.1 * (c.z - o.z) - axis.2 * (c.x - o.x) ∧ dy = c.y - o.y := by
  unfold coneCell
  rw [Cell.ext_iff]
  obtain rfl | rfl | rfl | rfl := haxis <;> dsimp only <;> omega

/-- What the loops do at one cell. -/
def landingAt (occupants : Dict Cell (MapBlock × Nat)) (lookup : GeometryLookup) (cell : Cell) :
    Option Cell :=
  match (occupants.get? cell).bind fun b => b.1.info? lookup with
  | none => none
  | some info => if info.shapeClass ∈ landingShapes then some cell else none

theorem landingAt_eq_some {occupants : Dict Cell (MapBlock × Nat)} {lookup : GeometryLookup}
    {cell c : Cell} :
    landingAt occupants lookup cell = some c ↔ cell = c ∧ Lands occupants lookup cell := by
  unfold landingAt Lands
  cases (occupants.get? cell).bind fun b => b.1.info? lookup with
  | none => simp
  | some info => simp [and_comm]

/-- The three loops as one. -/
theorem findLandingCandidates_eq (candidate : JumpCandidate)
    (occupants : Dict Cell (MapBlock × Nat)) (lookup : GeometryLookup) (cone : JumpConeConfig) :
    findLandingCandidates candidate occupants lookup cone =
      (rangeTo cone.forwardMinCells cone.forwardMaxCells ×ˢ
        rangeTo (-cone.lateralHalfWidth) cone.lateralHalfWidth ×ˢ
        rangeTo (-cone.maxDropCells) cone.maxRiseCells).filterMap fun i =>
          landingAt occupants lookup
            (coneCell candidate.takeoffCell (forwardAxis candidate) i.1 i.2.1 i.2.2) := by
  unfold findLandingCandidates SProd.sprod List.instSProd List.product
  simp only [List.filterMap_flatMap, List.filterMap_map]
  rfl

/-- No cell is found twice. -/
theorem findLandingCandidates_nodup (candidate : JumpCandidate)
    (occupants : Dict Cell (MapBlock × Nat)) (lookup : GeometryLookup) (cone : JumpConeConfig) :
    (findLandingCandidates candidate occupants lookup cone).Nodup := by
  rw [findLandingCandidates_eq]
  refine List.Nodup.filterMap ?_ ((rangeTo_nodup _ _).product
    ((rangeTo_nodup _ _).product (rangeTo_nodup _ _)))
  intro i j c hi hj
  obtain ⟨hi, -⟩ := landingAt_eq_some.mp hi
  obtain ⟨hj, -⟩ := landingAt_eq_some.mp hj
  rw [coneCell_eq_iff (isAxis_forwardAxis candidate)] at hi hj
  refine Prod.ext (hi.1.trans hj.1.symm) (Prod.ext (hi.2.1.trans hj.2.1.symm) ?_)
  exact hi.2.2.trans hj.2.2.symm

/-- What is found: the landing cells of the box along the axis. -/
theorem mem_findLandingCandidates {candidate : JumpCandidate}
    {occupants : Dict Cell (MapBlock × Nat)} {lookup : GeometryLookup} {cone : JumpConeConfig}
    {c : Cell} :
    c ∈ findLandingCandidates candidate occupants lookup cone ↔
      Lands occupants lookup c ∧
        InBox cone
          ((forwardAxis candidate).1 * (c.x - candidate.takeoffCell.x) +
            (forwardAxis candidate).2 * (c.z - candidate.takeoffCell.z))
          ((forwardAxis candidate).1 * (c.z - candidate.takeoffCell.z) -
            (forwardAxis candidate).2 * (c.x - candidate.takeoffCell.x))
          (c.y - candidate.takeoffCell.y) := by
  have haxis := isAxis_forwardAxis candidate
  rw [findLandingCandidates_eq, List.mem_filterMap]
  unfold InBox
  rw [abs_le]
  constructor
  · intro ⟨⟨step, lat, dy⟩, hmem, hfound⟩
    obtain ⟨hcell, hlands⟩ := landingAt_eq_some.mp hfound
    obtain ⟨hstep, hlat, hdy⟩ := (coneCell_eq_iff haxis).mp hcell
    rw [List.mem_product, List.mem_product, mem_rangeTo, mem_rangeTo, mem_rangeTo] at hmem
    rw [hcell] at hlands
    rw [← hstep, ← hlat, ← hdy]
    exact ⟨hlands, hmem⟩
  · intro ⟨hlands, hbox⟩
    refine ⟨⟨_, _, _⟩, ?_, landingAt_eq_some.mpr ⟨(coneCell_eq_iff haxis).mpr ⟨rfl, rfl, rfl⟩, ?_⟩⟩
    · rw [List.mem_product, List.mem_product, mem_rangeTo, mem_rangeTo, mem_rangeTo]
      exact hbox
    · rw [(coneCell_eq_iff haxis).mpr ⟨rfl, rfl, rfl⟩]
      exact hlands

theorem axis_eq {dx dz : Int} (hne : dx ≠ 0 ∨ dz ≠ 0) :
    (if |dz| ≤ |dx| ∧ dx ≠ 0 then ((if 0 < dx then 1 else -1 : Int), (0 : Int))
      else if dz ≠ 0 then (0, if 0 < dz then 1 else -1) else (1, 0)) =
      if |dz| ≤ |dx| then (dx.sign, 0) else (0, dz.sign) := by
  have hsign : ∀ v : Int, v ≠ 0 → v.sign = if 0 < v then 1 else -1 := by
    intro v hv
    split
    · rename_i hpos
      exact Int.sign_eq_one_of_pos hpos
    · exact Int.sign_eq_neg_one_of_neg (by omega)
  by_cases hle : |dz| ≤ |dx|
  · have hx : dx ≠ 0 := by
      rw [Int.abs_eq_natAbs, Int.abs_eq_natAbs] at hle
      omega
    rw [if_pos ⟨hle, hx⟩, if_pos hle, hsign dx hx]
  · have hz : dz ≠ 0 := by
      rw [Int.abs_eq_natAbs, Int.abs_eq_natAbs] at hle
      omega
    rw [if_neg fun h => hle h.1, if_pos hz, if_neg hle, hsign dz hz]

/-- The axis of the search, where the next cell gives a direction. -/
theorem forwardAxis_eq {candidate : JumpCandidate} (hforward : ¬Upright candidate) :
    forwardAxis candidate =
      let towards := candidate.nextRouteCell - candidate.takeoffCell
      if |towards.z| ≤ |towards.x| then (towards.x.sign, 0) else (0, towards.z.sign) := by
  refine axis_eq ?_
  unfold Upright at hforward
  omega

theorem inBox_neg {cone : JumpConeConfig} {forward sideways rise : Int} :
    InBox cone forward (-sideways) rise ↔ InBox cone forward sideways rise := by
  unfold InBox
  rw [abs_neg]

theorem inBox_sign_mul {cone : JumpConeConfig} {forward sideways rise v : Int} (hv : v ≠ 0) :
    InBox cone forward (v.sign * sideways) rise ↔ InBox cone forward sideways rise := by
  unfold InBox
  rw [abs_mul, Int.abs_sign_of_ne_zero hv, one_mul]

/-- Where the next cell gives a direction, these are the cells of the cone. -/
theorem mem_findLandingCandidates_cone {candidate : JumpCandidate}
    {occupants : Dict Cell (MapBlock × Nat)} {lookup : GeometryLookup} {cone : JumpConeConfig}
    (hforward : ¬Upright candidate) {c : Cell} :
    c ∈ findLandingCandidates candidate occupants lookup cone ↔
      Lands occupants lookup c ∧ InCone candidate cone c := by
  rw [mem_findLandingCandidates, forwardAxis_eq hforward]
  refine and_congr_right fun _ => ?_
  unfold InCone
  dsimp only [Cell.sub_x, Cell.sub_y, Cell.sub_z]
  by_cases hle : |candidate.nextRouteCell.z - candidate.takeoffCell.z| ≤
      |candidate.nextRouteCell.x - candidate.takeoffCell.x|
  · have hx : candidate.nextRouteCell.x - candidate.takeoffCell.x ≠ 0 := by
      unfold Upright at hforward
      rw [Int.abs_eq_natAbs, Int.abs_eq_natAbs] at hle
      omega
    rw [if_pos hle, if_pos hle]
    dsimp only
    rw [zero_mul, add_zero, zero_mul, sub_zero, inBox_sign_mul hx]
  · have hz : candidate.nextRouteCell.z - candidate.takeoffCell.z ≠ 0 := by
      rw [Int.abs_eq_natAbs, Int.abs_eq_natAbs] at hle
      omega
    rw [if_neg hle, if_neg hle]
    dsimp only
    rw [zero_mul, zero_add, zero_mul, zero_sub, inBox_neg, inBox_sign_mul hz]

/-! ## Quarter turns -/

/-- A quarter turn as `rotate_offset` turns by one, and the other way. -/
inductive QuarterTurn where
  | forth
  | back

/-- An offset from the axis, turned. -/
def QuarterTurn.offset : QuarterTurn → Cell → Cell
  | forth, d => ⟨-d.z, d.y, d.x⟩
  | back, d => ⟨d.z, d.y, -d.x⟩

/-- `rotation` is in quarters. -/
def QuarterTurn.quarters : QuarterTurn → Int
  | forth => 1
  | back => 3

/-- A cell turned about the column of `o`. -/
def QuarterTurn.about (t : QuarterTurn) (o c : Cell) : Cell := o + t.offset (c - o)

theorem about_injective (t : QuarterTurn) (o : Cell) : Function.Injective (t.about o) := by
  intro a b h
  rw [Cell.ext_iff] at h ⊢
  cases t <;>
    simp only [QuarterTurn.about, QuarterTurn.offset, Cell.add_x, Cell.add_y, Cell.add_z,
      Cell.sub_x, Cell.sub_y, Cell.sub_z] at h <;>
    omega

/-- A block turned with its cell. -/
def turnBlock (t : QuarterTurn) (o : Cell) (b : MapBlock) : MapBlock :=
  { b with
    x := (t.about o b.cell).x
    y := (t.about o b.cell).y
    z := (t.about o b.cell).z
    rotation := (b.rotation + t.quarters) % 4 }

/-- The block layout turned about the column of `o`. -/
def turnLayout (t : QuarterTurn) (o : Cell) (occupants : Dict Cell (MapBlock × Nat)) :
    Dict Cell (MapBlock × Nat) where
  items := occupants.items.map fun kv => (t.about o kv.1, turnBlock t o kv.2.1, kv.2.2)
  nodup := by
    rw [List.map_map]
    show (occupants.items.map fun kv => t.about o kv.1).Nodup
    have hkeys := occupants.nodup.map (about_injective t o)
    rwa [List.map_map] at hkeys

theorem get?_turnLayout (t : QuarterTurn) (o : Cell) (occupants : Dict Cell (MapBlock × Nat))
    (c : Cell) :
    (turnLayout t o occupants).get? (t.about o c) =
      (occupants.get? c).map fun b => (turnBlock t o b.1, b.2) := by
  have hitems : ∀ items : List (Cell × MapBlock × Nat),
      (items.map fun kv => (t.about o kv.1, turnBlock t o kv.2.1, kv.2.2)).lookup (t.about o c) =
        (items.lookup c).map fun b => (turnBlock t o b.1, b.2) := by
    intro items
    induction items with
    | nil => rfl
    | cons kv rest ih =>
      rw [List.map_cons, List.lookup_cons, List.lookup_cons, ih]
      by_cases hc : c = kv.1
      · rw [hc, beq_self_eq_true, beq_self_eq_true]
        rfl
      · have hne : t.about o c ≠ t.about o kv.1 := fun h => hc (about_injective t o h)
        rw [beq_false_of_ne hc, beq_false_of_ne hne]
  exact hitems occupants.items

/-- The turned layout has the landing cells turned. -/
theorem lands_turnLayout {t : QuarterTurn} {o : Cell} {occupants : Dict Cell (MapBlock × Nat)}
    {lookup : GeometryLookup} {c : Cell} :
    Lands (turnLayout t o occupants) lookup (t.about o c) ↔ Lands occupants lookup c := by
  have hinfo : ((turnLayout t o occupants).get? (t.about o c)).bind (fun b => b.1.info? lookup) =
      (occupants.get? c).bind fun b => b.1.info? lookup := by
    rw [get?_turnLayout]
    cases occupants.get? c with
    | none => rfl
    | some b => rfl
  unfold Lands
  rw [hinfo]

/-! ## Straight up or down -/

/-- The box that the search falls back to: the one towards greater `x`. -/
def InEastBox (candidate : JumpCandidate) (cone : JumpConeConfig) (c : Cell) : Prop :=
  InBox cone (c.x - candidate.takeoffCell.x) (c.z - candidate.takeoffCell.z)
    (c.y - candidate.takeoffCell.y)

section Upright

variable {candidate : JumpCandidate} {occupants : Dict Cell (MapBlock × Nat)}
  {lookup : GeometryLookup} {cone : JumpConeConfig} {t : QuarterTurn} {c : Cell}

theorem mem_findLandingCandidates_upright (hupright : Upright candidate) :
    c ∈ findLandingCandidates candidate occupants lookup cone ↔
      Lands occupants lookup c ∧ InEastBox candidate cone c := by
  have haxis : forwardAxis candidate = (1, 0) := by
    unfold forwardAxis
    dsimp only
    rw [hupright.1, hupright.2, sub_self, sub_self]
    rfl
  rw [mem_findLandingCandidates, haxis]
  unfold InEastBox
  simp only [one_mul, zero_mul, add_zero, sub_zero]

theorem mem_turned_iff (hupright : Upright candidate) :
    t.about candidate.takeoffCell c ∈ findLandingCandidates candidate
        (turnLayout t candidate.takeoffCell occupants) lookup cone ↔
      Lands occupants lookup c ∧
        InEastBox candidate cone (t.about candidate.takeoffCell c) := by
  rw [mem_findLandingCandidates_upright hupright, lands_turnLayout]

theorem about_surjective (t : QuarterTurn) (o : Cell) : Function.Surjective (t.about o) := by
  intro c
  cases t
  · refine ⟨QuarterTurn.back.about o c, ?_⟩
    rw [Cell.ext_iff]
    simp [QuarterTurn.about, QuarterTurn.offset]
  · refine ⟨QuarterTurn.forth.about o c, ?_⟩
    rw [Cell.ext_iff]
    simp [QuarterTurn.about, QuarterTurn.offset]

/-- The result turns with the layout where the box and its turned image hold the same landing
cells. -/
theorem perm_turned_iff (hupright : Upright candidate) :
    (findLandingCandidates candidate (turnLayout t candidate.takeoffCell occupants) lookup
        cone).Perm
      ((findLandingCandidates candidate occupants lookup cone).map
        (t.about candidate.takeoffCell)) ↔
      ∀ c, Lands occupants lookup c →
        (InEastBox candidate cone c ↔
          InEastBox candidate cone (t.about candidate.takeoffCell c)) := by
  have hinj := about_injective t candidate.takeoffCell
  rw [List.perm_ext_iff_of_nodup (findLandingCandidates_nodup _ _ _ _)
    ((findLandingCandidates_nodup _ _ _ _).map hinj)]
  constructor
  · intro h c hlands
    have hc := h (t.about candidate.takeoffCell c)
    rw [mem_turned_iff hupright, List.mem_map_of_injective hinj,
      mem_findLandingCandidates_upright hupright] at hc
    tauto
  · intro h c
    obtain ⟨d, rfl⟩ := about_surjective t candidate.takeoffCell c
    rw [mem_turned_iff hupright, List.mem_map_of_injective hinj,
      mem_findLandingCandidates_upright hupright]
    have hd := h d
    tauto

theorem abs_about_x (t : QuarterTurn) (o c : Cell) :
    |o.x - (t.about o c).x| = |o.z - c.z| := by
  rw [Int.abs_eq_natAbs, Int.abs_eq_natAbs]
  cases t <;> simp only [QuarterTurn.about, QuarterTurn.offset, Cell.add_x, Cell.sub_z] <;> omega

theorem abs_about_z (t : QuarterTurn) (o c : Cell) :
    |o.z - (t.about o c).z| = |o.x - c.x| := by
  rw [Int.abs_eq_natAbs, Int.abs_eq_natAbs]
  cases t <;> simp only [QuarterTurn.about, QuarterTurn.offset, Cell.add_z, Cell.sub_x] <;> omega

theorem about_y (t : QuarterTurn) (o c : Cell) : (t.about o c).y = c.y := by
  cases t <;> exact add_sub_cancel o.y c.y

/-- The next cell is on the axis, so its distances turn with the cells. -/
theorem chebyshev_about (hupright : Upright candidate) :
    chebyshev candidate.nextRouteCell (t.about candidate.takeoffCell c) =
      chebyshev candidate.nextRouteCell c := by
  obtain ⟨hx, hz⟩ := hupright
  unfold chebyshev
  rw [hx, hz, abs_about_x, abs_about_z, about_y]
  -- A quarter turn exchanges the distances along X and Z.
  rw [max_comm, max_comm |candidate.takeoffCell.z - c.z|, max_assoc]

/-- The class depends on the landings and on the replay up to turning them. -/
theorem classifyJump_turned (hupright : Upright candidate) {landings turned : List Cell}
    (h : turned.Perm (landings.map (t.about candidate.takeoffCell)))
    (replay : Option (List Cell)) :
    classifyJump candidate turned
        (replay.map fun cells => cells.map (t.about candidate.takeoffCell)) =
      classifyJump candidate landings replay := by
  have hnear : ∀ cells : List Cell, (cells.map (t.about candidate.takeoffCell)).any
      (fun c => decide (chebyshev candidate.nextRouteCell c ≤ 1)) =
        cells.any fun c => decide (chebyshev candidate.nextRouteCell c ≤ 1) := by
    intro cells
    rw [List.any_map]
    refine congrArg cells.any (funext fun c => ?_)
    show decide (chebyshev _ (t.about candidate.takeoffCell c) ≤ 1) = _
    rw [chebyshev_about hupright]
  have htakeoff : t.about candidate.takeoffCell candidate.takeoffCell = candidate.takeoffCell := by
    rw [Cell.ext_iff]
    cases t <;> simp [QuarterTurn.about, QuarterTurn.offset]
  have htouched : ∀ cells : List Cell,
      candidate.takeoffCell ∈ cells.map (t.about candidate.takeoffCell) ↔
        candidate.takeoffCell ∈ cells := by
    intro cells
    have hmem := List.mem_map_of_injective (about_injective t candidate.takeoffCell)
      (a := candidate.takeoffCell) (l := cells)
    rwa [htakeoff] at hmem
  have hany := (h.any_eq (f := fun c => decide (chebyshev candidate.nextRouteCell c ≤ 1))).trans
    (hnear landings)
  have hempty : turned.isEmpty = landings.isEmpty := by
    rw [h.isEmpty_eq, List.isEmpty_map]
  unfold classifyJump
  rw [hany, hempty]
  cases replay with
  | none => rfl
  | some cells =>
    simp only [Option.map_some, Option.any_some, hnear, htouched]

end Upright

/-- The search as documented: the cells of the cone, none twice, and without a direction a search
around the takeoff cell, whose result and class turn with the layout. -/
structure SearchesCone (candidate : JumpCandidate) (occupants : Dict Cell (MapBlock × Nat))
    (lookup : GeometryLookup) (cone : JumpConeConfig) (t : QuarterTurn)
    (replayTouchedCells : Option (List Cell)) : Prop where
  once : (findLandingCandidates candidate occupants lookup cone).Nodup
  cells : ¬Upright candidate → ∀ c,
    c ∈ findLandingCandidates candidate occupants lookup cone ↔
      Lands occupants lookup c ∧ InCone candidate cone c
  around : Upright candidate →
    (findLandingCandidates candidate (turnLayout t candidate.takeoffCell occupants) lookup
        cone).Perm
      ((findLandingCandidates candidate occupants lookup cone).map
        (t.about candidate.takeoffCell))
  heading : Upright candidate →
    classifyJump candidate
        (findLandingCandidates candidate (turnLayout t candidate.takeoffCell occupants) lookup cone)
        (replayTouchedCells.map fun cells => cells.map (t.about candidate.takeoffCell)) =
      classifyJump candidate (findLandingCandidates candidate occupants lookup cone)
        replayTouchedCells

/-- Without a direction each landing cell must be in the box towards greater `x` just as it would
be after the turn. -/
theorem searchesCone_iff (candidate : JumpCandidate) (occupants : Dict Cell (MapBlock × Nat))
    (lookup : GeometryLookup) (cone : JumpConeConfig) (t : QuarterTurn)
    (replayTouchedCells : Option (List Cell)) :
    SearchesCone candidate occupants lookup cone t replayTouchedCells ↔
      (Upright candidate → ∀ c, Lands occupants lookup c →
        (InEastBox candidate cone c ↔
          InEastBox candidate cone (t.about candidate.takeoffCell c))) := by
  constructor
  · intro h hupright
    exact (perm_turned_iff hupright).mp (h.around hupright)
  · intro h
    have hperm := fun hupright => (perm_turned_iff (t := t) hupright).mpr (h hupright)
    refine ⟨findLandingCandidates_nodup candidate occupants lookup cone, ?_, hperm, ?_⟩
    · intro hforward c
      exact mem_findLandingCandidates_cone hforward
    · intro hupright
      exact classifyJump_turned hupright (hperm hupright) replayTouchedCells

/-- A ramp at the origin, the next cell three above it. -/
def hop : JumpCandidate := ⟨⟨0, 9, 0⟩, ⟨0, 12, 0⟩, .ramp⟩

/-- A platform three cells away, towards greater `x`. -/
def eastPlatform : Dict Cell (MapBlock × Nat) :=
  ⟨[(⟨3, 9, 0⟩, ⟨"Platform", "PlatformBase", 3, 9, 0, 0⟩, 0)], by decide⟩

def platformLookup : GeometryLookup :=
  ⟨[(("Platform", "PlatformBase"), ⟨1, .platform, false⟩)], by decide⟩

/-- The platform is found, and after a quarter turn it is not. -/
theorem hop_not_turned : ¬SearchesCone hop eastPlatform platformLookup {} .forth none := by
  intro h
  have hclass := h.heading ⟨rfl, rfl⟩
  revert hclass
  decide +kernel

end TraxMania.Generation.Validation
