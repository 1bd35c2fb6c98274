import Mathlib.Analysis.SpecialFunctions.Trigonometric.Basic
import Mathlib.Data.Matrix.Mul
import Mathlib.LinearAlgebra.Matrix.Notation
import TraxMania.Driven.Optimum
import TraxMania.Lib.Segment

/-
  The volume of a tilted free block against the box that stands for it, over exact reals.

  The source does not say about which horizontal axis a roll turns, in which order roll and pitch
  turn the block and which way, so everything here is for any `TiltConvention`. `contains` undoes
  the yaw, and in the yawed axes the block's coordinates are linear forms over its box of local
  points: each is largest in a corner, so whether the block stays in the box is one inequality for
  each side of the box (`Fits`, `forall_contains_iff`).
-/

namespace TraxMania.Driven

open Lib

/-! ## Exact reals -/

noncomputable instance metresReal : Metres ℝ where
  round x := if x - ⌊x⌋ < ⌊x⌋ + 1 - x then ⌊x⌋
    else if ⌊x⌋ + 1 - x < x - ⌊x⌋ then ⌊x⌋ + 1
    else if ⌊x⌋ % 2 = 0 then ⌊x⌋ else ⌊x⌋ + 1
  floorDiv x y := ⌊x / y⌋
  floor := Int.floor

/-- The `math` module with exact functions. -/
noncomputable def realMath : Math ℝ where
  cos := Real.cos
  sin := Real.sin
  dist p q := √((p.x - q.x) ^ 2 + (p.y - q.y) ^ 2 + (p.z - q.z) ^ 2)

theorem fabs_real (x : ℝ) : fabs x = |x| := rfl

theorem half_real (x : ℝ) : half x = x / 2 := by
  simp [half, const]

/-! ## The block -/

/-- A horizontal axis of a block. -/
inductive HorizontalAxis where
  | x
  | z
deriving DecidableEq

/-- The turn about a horizontal axis. -/
noncomputable def HorizontalAxis.turn (axis : HorizontalAxis) (angle : ℝ) :
    Matrix (Fin 3) (Fin 3) ℝ :=
  match axis with
  | .x => !![1, 0, 0; 0, Real.cos angle, -Real.sin angle; 0, Real.sin angle, Real.cos angle]
  | .z => !![Real.cos angle, -Real.sin angle, 0; Real.sin angle, Real.cos angle, 0; 0, 0, 1]

def HorizontalAxis.other : HorizontalAxis → HorizontalAxis
  | .x => .z
  | .z => .x

/-- How roll and pitch turn a block: the axis of the roll (the pitch has the other one), which of
the two comes first, and which way each goes. -/
structure TiltConvention where
  rollAxis : HorizontalAxis
  rollFirst : Bool
  rollSense : ℤˣ
  pitchSense : ℤˣ

/-- The turn by roll and pitch. -/
noncomputable def TiltConvention.tilt (conv : TiltConvention) (pitch roll : ℝ) :
    Matrix (Fin 3) (Fin 3) ℝ :=
  let rolled := conv.rollAxis.turn ((conv.rollSense : ℤ) * roll)
  let pitched := conv.rollAxis.other.turn ((conv.pitchSense : ℤ) * pitch)
  if conv.rollFirst then pitched * rolled else rolled * pitched

/-- Half the block's sides in metres, as its catalogue size gives them. -/
noncomputable def halfSides (catalogue : BlockCatalogue) (p : Placement ℝ) : Fin 3 → ℝ :=
  let size := freeSize catalogue p
  ![half (size.x * 32), half (size.y * 8), half (size.z * 32)]

/-- Where the block's box begins and ends in its own axes, whose origin is the pivot. -/
def firstCorner (anchor : FreeAnchor) (e : Fin 3 → ℝ) : Fin 3 → ℝ :=
  match anchor with
  | .corner => 0
  | .center => -e

def lastCorner (anchor : FreeAnchor) (e : Fin 3 → ℝ) : Fin 3 → ℝ :=
  match anchor with
  | .corner => 2 • e
  | .center => e

/-- A point of the yawed axes of a placement at `pos`, in the world. -/
noncomputable def yawed (pos : Point ℝ) (yaw : ℝ) (v : Fin 3 → ℝ) : Point ℝ :=
  ⟨pos.x + (v 0 * Real.cos yaw - v 2 * Real.sin yaw), pos.y + v 1,
    pos.z + (v 0 * Real.sin yaw + v 2 * Real.cos yaw)⟩

/-- `q` is a point of the block's volume, turned by roll and pitch and then by yaw. -/
def OnBlock (conv : TiltConvention) (catalogue : BlockCatalogue) (anchor : FreeAnchor)
    (p : Placement ℝ) (pos q : Point ℝ) : Prop :=
  let e := halfSides catalogue p
  ∃ point : Fin 3 → ℝ,
    (∀ i, point i ∈ Set.uIcc (firstCorner anchor e i) (lastCorner anchor e i)) ∧
      q = yawed pos p.yaw ((conv.tilt p.pitch p.roll).mulVec point)

/-! ## The box -/

/-- What `free_placement_box` adds to each half side of a tilted block. -/
noncomputable def growth (e : Fin 3 → ℝ) (pitch roll : ℝ) : ℝ :=
  let tilt := max |pitch| |roll|
  if 1 / 1000 < tilt then |Real.sin tilt| * max (max (e 0) (e 1)) (e 2) else 0

theorem freeExtents_eq (catalogue : BlockCatalogue) (p : Placement ℝ) :
    freeExtents realMath catalogue p =
      let e := halfSides catalogue p
      let grow := growth e p.pitch p.roll
      ⟨e 0 + grow, e 1 + grow, e 2 + grow⟩ := by
  have hx : (half (const (freeSize catalogue p).x * cellSizeM) : ℝ) = halfSides catalogue p 0 := by
    simp [half, const, cellSizeM, halfSides]
  have hy : (half (const (freeSize catalogue p).y * levelHeightM) : ℝ) =
      halfSides catalogue p 1 := by
    simp [half, const, levelHeightM, halfSides]
  have hz : (half (const (freeSize catalogue p).z * cellSizeM) : ℝ) = halfSides catalogue p 2 := by
    simp [half, const, cellSizeM, halfSides]
  have hconst : (const 1 / const 1000 : ℝ) = 1 / 1000 := by
    simp [const]
  simp only [freeExtents, growth, hx, hy, hz, hconst, fabs_real]
  split
  · rfl
  · simp only [add_zero]

/-- In the yawed axes, the centre of the box. -/
noncomputable def boxCentre (anchor : FreeAnchor) (e : Fin 3 → ℝ) : Fin 3 → ℝ :=
  match anchor with
  | .corner => e
  | .center => 0

/-- The box with its centre and its half extents in the yawed axes. -/
noncomputable def yawedBox (pos : Point ℝ) (yaw : ℝ) (centre h : Fin 3 → ℝ) (index : ℕ) :
    OrientedBox ℝ :=
  let c := yawed pos yaw centre
  ⟨c.x, c.y, c.z, h 0, h 1, h 2, yaw, index⟩

/-- The half sides as the box has them. -/
noncomputable def grown (p : Placement ℝ) (e : Fin 3 → ℝ) : Fin 3 → ℝ :=
  fun i => e i + growth e p.pitch p.roll

theorem freePlacementBox_eq (catalogue : BlockCatalogue) (anchor : FreeAnchor) (padM : ℝ)
    {p : Placement ℝ} {pos : Point ℝ} (hfree : p.isFree = true) (hpos : p.abs = some pos) :
    freePlacementBox realMath catalogue anchor padM p =
      let e := grown p (halfSides catalogue p)
      some (yawedBox pos p.yaw (boxCentre anchor e) (fun i => e i + padM) p.index) := by
  simp only [freePlacementBox, hfree, hpos, freeExtents_eq, yawedBox, yawed, grown]
  cases anchor with
  | corner => rfl
  | center => simp only [boxCentre, Pi.zero_apply, zero_mul, sub_zero, add_zero]

/-- `contains` undoes the yaw. -/
theorem contains_yawed {pos : Point ℝ} {yaw : ℝ} {centre h v : Fin 3 → ℝ} {index : ℕ} :
    (yawedBox pos yaw centre h index).contains realMath (yawed pos yaw v) = true ↔
      ∀ i, |v i - centre i| ≤ h i := by
  have hone := Real.cos_sq_add_sin_sq yaw
  simp only [OrientedBox.contains, Bool.and_eq_true, decide_eq_true_eq, and_assoc]
  simp only [yawedBox, yawed, realMath, Real.cos_neg, Real.sin_neg, fabs_real,
    Fin.forall_fin_succ, IsEmpty.forall_iff, Fin.succ_zero_eq_one, Fin.succ_one_eq_two, and_true]
  have hx : (pos.x + (v 0 * Real.cos yaw - v 2 * Real.sin yaw) -
        (pos.x + (centre 0 * Real.cos yaw - centre 2 * Real.sin yaw))) * Real.cos yaw -
      (pos.z + (v 0 * Real.sin yaw + v 2 * Real.cos yaw) -
        (pos.z + (centre 0 * Real.sin yaw + centre 2 * Real.cos yaw))) * -Real.sin yaw =
      v 0 - centre 0 := by
    linear_combination (v 0 - centre 0) * hone
  have hy : pos.y + v 1 - (pos.y + centre 1) = v 1 - centre 1 := by ring
  have hz : (pos.x + (v 0 * Real.cos yaw - v 2 * Real.sin yaw) -
        (pos.x + (centre 0 * Real.cos yaw - centre 2 * Real.sin yaw))) * -Real.sin yaw +
      (pos.z + (v 0 * Real.sin yaw + v 2 * Real.cos yaw) -
        (pos.z + (centre 0 * Real.sin yaw + centre 2 * Real.cos yaw))) * Real.cos yaw =
      v 2 - centre 2 := by
    linear_combination (v 2 - centre 2) * hone
  rw [hx, hy, hz]

/-! ## When the block stays in its box -/

/-- Along each axis of the box the three turned sides of the block reach no further than the box:
about its centre by as much as it is wide, and from the corner at `pos` by `padM` back and by
twice the grown half side and `padM` on. -/
def Fits (conv : TiltConvention) (anchor : FreeAnchor) (padM pitch roll : ℝ) (e : Fin 3 → ℝ) :
    Prop :=
  let t := conv.tilt pitch roll
  match anchor with
  | .center => ∀ i, ∑ j, |t i j * e j| ≤ e i + growth e pitch roll + padM
  | .corner => ∀ i, ∑ j, max 0 (2 • (t i j * e j)) ≤ 2 • (e i + growth e pitch roll) + padM ∧
      ∑ j, max 0 (-(2 • (t i j * e j))) ≤ padM

theorem fits_iff_corners (conv : TiltConvention) (anchor : FreeAnchor) (padM : ℝ)
    (p : Placement ℝ) (e : Fin 3 → ℝ) :
    Fits conv anchor padM p.pitch p.roll e ↔
      let t := conv.tilt p.pitch p.roll
      ∀ i, ∑ j, max (t i j * firstCorner anchor e j) (t i j * lastCorner anchor e j) ≤
            boxCentre anchor (grown p e) i + (grown p e i + padM) ∧
        ∑ j, max (-t i j * firstCorner anchor e j) (-t i j * lastCorner anchor e j) ≤
            grown p e i + padM - boxCentre anchor (grown p e) i := by
  cases anchor with
  | center =>
    have hhigh : ∀ a b : ℝ, max (a * -b) (a * b) = |a * b| := fun a b => by
      rw [mul_neg, max_comm, abs_eq_max_neg]
    have hlow : ∀ a b : ℝ, |-a * b| = |a * b| := fun a b => by
      rw [neg_mul, abs_neg]
    simp only [Fits, firstCorner, lastCorner, boxCentre, grown, Pi.neg_apply, Pi.zero_apply, hhigh,
      hlow, zero_add, sub_zero, and_self]
  | corner =>
    have hhigh : ∀ a b : ℝ, max (a * 0) (a * (2 * b)) = max 0 (2 * (a * b)) := fun a b => by
      rw [mul_zero, mul_left_comm]
    have hlow : ∀ a b : ℝ, 2 * (-a * b) = -(2 * (a * b)) := fun a b => by
      rw [neg_mul, mul_neg]
    have hsum : ∀ a : ℝ, a + (a + padM) = 2 * a + padM := fun a => by ring
    simp only [Fits, firstCorner, lastCorner, boxCentre, grown, Pi.zero_apply, Pi.smul_apply,
      nsmul_eq_mul, Nat.cast_ofNat, hhigh, hlow, hsum, add_sub_cancel_left]

/-- The block stays in its box exactly when it fits. -/
theorem forall_contains_iff {conv : TiltConvention} {catalogue : BlockCatalogue}
    {anchor : FreeAnchor} {padM : ℝ} {p : Placement ℝ} {pos : Point ℝ} {b : OrientedBox ℝ}
    (hfree : p.isFree = true) (hpos : p.abs = some pos)
    (hb : freePlacementBox realMath catalogue anchor padM p = some b) :
    (∀ q, OnBlock conv catalogue anchor p pos q → b.contains realMath q = true) ↔
      Fits conv anchor padM p.pitch p.roll (halfSides catalogue p) := by
  rw [freePlacementBox_eq _ _ _ hfree hpos, Option.some.injEq] at hb
  have hcoord : ∀ (x : Fin 3 → ℝ) i, (conv.tilt p.pitch p.roll).mulVec x i =
      ∑ j, conv.tilt p.pitch p.roll i j * x j := fun x i => rfl
  rw [← hb, fits_iff_corners]
  simp only [← Segment.forall_box_abs_le_iff]
  constructor
  · intro hall i x hx
    have hin := contains_yawed.mp (hall _ ⟨x, hx, rfl⟩) i
    rwa [hcoord] at hin
  · intro hall q hq
    obtain ⟨x, hx, rfl⟩ := hq
    refine contains_yawed.mpr fun i => ?_
    rw [hcoord]
    exact hall i x hx

/-! ## The candidates -/

/-- A free placement is a candidate where its box is. -/
theorem mem_freeCandidates_iff {σ : Type} [Metres σ] {math : Math σ} {catalogue : BlockCatalogue}
    {anchor : FreeAnchor} {padM : σ} {placements : List (Placement σ)} {p : Placement σ}
    {b : OrientedBox σ} (hp : p ∈ placements)
    (hunique : ∀ p' ∈ placements, p'.index = p.index → p' = p) (hfree : p.isFree = true)
    (hb : freePlacementBox math catalogue anchor padM p = some b) (q : Point σ) :
    p.index ∈ (CandidateIndex.init math catalogue anchor padM placements).freeCandidates math q ↔
      b.contains math q = true := by
  simp only [CandidateIndex.freeCandidates, CandidateIndex.init, List.mem_map, List.mem_filter,
    List.mem_filterMap]
  constructor
  · intro hmem
    obtain ⟨b', ⟨⟨p', ⟨hp', -⟩, hb'⟩, hin⟩, hindex⟩ := hmem
    obtain rfl := hunique p' hp' ((freePlacementBox_index hb').symm.trans hindex)
    obtain rfl := Option.some.inj (hb.symm.trans hb')
    exact hin
  · intro hin
    exact ⟨b, ⟨⟨p, ⟨hp, hfree⟩, hb⟩, hin⟩, freePlacementBox_index hb⟩

/-- The block of a free placement stays in its box, and the placement among the candidates of
every point of it, exactly when it fits. -/
theorem tilted_block_kept_iff (conv : TiltConvention) (catalogue : BlockCatalogue)
    (anchor : FreeAnchor) (padM : ℝ) {placements : List (Placement ℝ)} {p : Placement ℝ}
    {pos : Point ℝ} (hp : p ∈ placements)
    (hunique : ∀ p' ∈ placements, p'.index = p.index → p' = p) (hfree : p.isFree = true)
    (hpos : p.abs = some pos) :
    ∃ b, freePlacementBox realMath catalogue anchor padM p = some b ∧
      ((∀ q, OnBlock conv catalogue anchor p pos q → b.contains realMath q = true) ↔
        Fits conv anchor padM p.pitch p.roll (halfSides catalogue p)) ∧
      ((∀ q, OnBlock conv catalogue anchor p pos q →
          p.index ∈ (CandidateIndex.init realMath catalogue anchor padM placements).freeCandidates
            realMath q) ↔
        Fits conv anchor padM p.pitch p.roll (halfSides catalogue p)) := by
  have hb := freePlacementBox_eq catalogue anchor padM hfree hpos
  have hiff := @forall_contains_iff conv _ _ _ _ _ _ hfree hpos hb
  refine ⟨_, hb, hiff, ?_⟩
  rw [← hiff]
  exact forall_congr' fun q => imp_congr_right fun _ =>
    mem_freeCandidates_iff hp hunique hfree hb q

/-- A block of one cell, upside down and on its side. -/
noncomputable def tumbled : Placement ℝ where
  index := 1
  blockType := "RoadTechStraight"
  variant := 0
  isFree := true
  cell := none
  rotation := 0
  abs := some ⟨0, 0, 0⟩
  yaw := 0
  pitch := Real.pi
  roll := half Real.pi

theorem halfSides_tumbled : halfSides Dict.empty tumbled = ![16, 4, 16] := by
  norm_num [halfSides, half_real, freeSize, Dict.get?, Dict.empty]

/-- Its sides stand upright: a side of 32 m is 16 m high on each side of the centre. -/
theorem sum_tumbled (conv : TiltConvention) :
    ∑ j, |conv.tilt Real.pi (Real.pi / 2) 1 j * ![16, 4, 16] j| = 16 := by
  obtain ⟨axis, first, rollSense, pitchSense⟩ := conv
  obtain rfl | rfl := Int.units_eq_one_or rollSense <;>
    obtain rfl | rfl := Int.units_eq_one_or pitchSense <;>
    cases axis <;> cases first <;>
    simp [TiltConvention.tilt, HorizontalAxis.turn, HorizontalAxis.other, Fin.sum_univ_three]

theorem growth_tumbled : growth (halfSides Dict.empty tumbled) tumbled.pitch tumbled.roll = 0 := by
  have hpi := Real.pi_pos
  have htilt : max |tumbled.pitch| |tumbled.roll| = Real.pi := by
    simp only [tumbled, half_real]
    rw [abs_of_pos hpi, abs_of_pos (half_pos hpi), max_eq_left (half_le_self (le_of_lt hpi))]
  simp only [growth, htilt, Real.sin_pi, abs_zero, zero_mul, ite_self]

theorem not_fits_tumbled (conv : TiltConvention) :
    ¬ Fits conv .center 8 tumbled.pitch tumbled.roll (halfSides Dict.empty tumbled) := by
  intro hfits
  have hup := hfits 1
  rw [growth_tumbled, halfSides_tumbled] at hup
  simp only [tumbled, half_real] at hup
  rw [sum_tumbled conv] at hup
  norm_num at hup

/-- The box does not grow at all, since the sine of the larger tilt is 0, and its 12 m up and down
leave out points of the block, whatever the convention. -/
theorem tumbled_lost : ¬ ∃ conv : TiltConvention, ∀ q,
    OnBlock conv Dict.empty .center tumbled ⟨0, 0, 0⟩ q →
      1 ∈ (CandidateIndex.init realMath Dict.empty .center 8 [tumbled]).freeCandidates
        realMath q := by
  intro hex
  obtain ⟨conv, hall⟩ := hex
  have hb : freePlacementBox realMath Dict.empty .center 8 tumbled = _ :=
    freePlacementBox_eq _ _ _ rfl (rfl : tumbled.abs = some ⟨0, 0, 0⟩)
  refine not_fits_tumbled conv ((forall_contains_iff rfl rfl hb).mp fun q hq => ?_)
  refine (mem_freeCandidates_iff (List.mem_singleton.mpr rfl) ?_ rfl hb q).mp (hall q hq)
  intro p' hp' _
  exact List.mem_singleton.mp hp'

theorem tilted_block_kept_iff_tumbled : ∃ b,
    freePlacementBox realMath Dict.empty .center 8 tumbled = some b ∧
      ((∀ q, OnBlock ⟨.z, true, 1, 1⟩ Dict.empty .center tumbled ⟨0, 0, 0⟩ q →
          b.contains realMath q = true) ↔
        Fits ⟨.z, true, 1, 1⟩ .center 8 tumbled.pitch tumbled.roll (halfSides Dict.empty tumbled)) ∧
      ((∀ q, OnBlock ⟨.z, true, 1, 1⟩ Dict.empty .center tumbled ⟨0, 0, 0⟩ q →
          1 ∈ (CandidateIndex.init realMath Dict.empty .center 8 [tumbled]).freeCandidates
            realMath q) ↔
        Fits ⟨.z, true, 1, 1⟩ .center 8 tumbled.pitch tumbled.roll
          (halfSides Dict.empty tumbled)) :=
  tilted_block_kept_iff ⟨.z, true, 1, 1⟩ Dict.empty .center 8 (List.mem_singleton.mpr rfl)
    (fun _ hp' _ => List.mem_singleton.mp hp') rfl rfl

end TraxMania.Driven
