import TraxMania.Constraints.OffsetTable
import TraxMania.Generation.Grammar
import Mathlib.Data.Finset.Max

/-
  What a rigid quarter turn of a two-block scene does to its grammar key. A block turns about its
  own box, and its anchor is the minimum corner of the turned box, so the anchors of two blocks of
  different depth turn about different points: the stored offset moves by the difference
  (`turn_diff`). The key survives exactly when the two footprints are equally deep
  (`rigidTurn_key_iff`).
-/

namespace TraxMania.Constraints

open TraxMania.Grid TraxMania.Catalogue TraxMania.Generation

/-- The unit cells of a block at rotation 0, and the box they fill from side to side. -/
structure Footprint where
  size : Cell
  units : Finset Cell
  inBox : ∀ o ∈ units, InBox size o
  touchesX : ∃ o ∈ units, o.x = 0
  touchesY : ∃ o ∈ units, o.y = 0
  touchesZ : ∃ o ∈ units, o.z = 0
  fillsX : ∃ o ∈ units, o.x = size.x - 1
  fillsZ : ∃ o ∈ units, o.z = size.z - 1

/-- A block in the world. -/
structure Placed where
  block : String
  footprint : Footprint
  anchor : Cell
  rotation : Int
  legal : 0 ≤ rotation ∧ rotation < 4

namespace Placed

/-- The box of the turned block. -/
def extent (p : Placed) : Cell := rotatedSize p.footprint.size p.rotation

/-- The cells a block occupies. -/
def cells (p : Placed) : Finset Cell :=
  p.footprint.units.image fun o => p.anchor + rotateOffset o p.rotation p.footprint.size

theorem cells_nonempty (p : Placed) : p.cells.Nonempty := by
  obtain ⟨o, ho, -⟩ := p.footprint.touchesX
  exact ⟨_, Finset.mem_image_of_mem _ ho⟩

end Placed

/-! ## Minimum corners -/

/-- The least coordinates of the cells. -/
def minCorner (cells : Finset Cell) (h : cells.Nonempty) : Cell where
  x := (cells.image Cell.x).min' (h.image _)
  y := (cells.image Cell.y).min' (h.image _)
  z := (cells.image Cell.z).min' (h.image _)

theorem min'_eq {s : Finset Int} (h : s.Nonempty) {m : Int} (hm : m ∈ s) (hle : ∀ v ∈ s, m ≤ v) :
    s.min' h = m :=
  le_antisymm (s.min'_le m hm) (hle _ (s.min'_mem h))

theorem minCorner_eq {cells : Finset Cell} (h : cells.Nonempty) {c : Cell}
    (hle : ∀ d ∈ cells, c.x ≤ d.x ∧ c.y ≤ d.y ∧ c.z ≤ d.z) (hx : ∃ d ∈ cells, d.x = c.x)
    (hy : ∃ d ∈ cells, d.y = c.y) (hz : ∃ d ∈ cells, d.z = c.z) : minCorner cells h = c := by
  unfold minCorner
  refine Cell.ext ?_ ?_ ?_
  · refine min'_eq (h.image Cell.x) (Finset.mem_image.mpr hx) fun v hv => ?_
    obtain ⟨d, hd, rfl⟩ := Finset.mem_image.mp hv
    exact (hle d hd).1
  · refine min'_eq (h.image Cell.y) (Finset.mem_image.mpr hy) fun v hv => ?_
    obtain ⟨d, hd, rfl⟩ := Finset.mem_image.mp hv
    exact (hle d hd).2.1
  · refine min'_eq (h.image Cell.z) (Finset.mem_image.mpr hz) fun v hv => ?_
    obtain ⟨d, hd, rfl⟩ := Finset.mem_image.mp hv
    exact (hle d hd).2.2

namespace Footprint

variable (f : Footprint) (d : Int)

theorem turned_inBox {o : Cell} (h : o ∈ f.units) :
    InBox (rotatedSize f.size d) (rotateOffset o d f.size) :=
  inBox_rotateOffset (f.inBox o h) d

/-- Turned or not, the units reach all four sides of the box. -/
theorem turned_reaches :
    (∃ o ∈ f.units, (rotateOffset o d f.size).x = 0) ∧
    (∃ o ∈ f.units, (rotateOffset o d f.size).z = 0) ∧
    (∃ o ∈ f.units, (rotateOffset o d f.size).z = (rotatedSize f.size d).z - 1) := by
  obtain ⟨ox, hox, hx⟩ := f.touchesX
  obtain ⟨oz, hoz, hz⟩ := f.touchesZ
  obtain ⟨px, hpx, hfx⟩ := f.fillsX
  obtain ⟨pz, hpz, hfz⟩ := f.fillsZ
  rcases mod_four_cases d with h | h | h | h
  · simp only [rotateOffset_of_zero h, rotatedSize_of_even (d := d) (by omega)]
    exact ⟨⟨ox, hox, hx⟩, ⟨oz, hoz, hz⟩, ⟨pz, hpz, hfz⟩⟩
  · simp only [rotateOffset_of_one h, rotatedSize_of_odd (d := d) (by omega)]
    exact ⟨⟨pz, hpz, by omega⟩, ⟨ox, hox, hx⟩, ⟨px, hpx, hfx⟩⟩
  · simp only [rotateOffset_of_two h, rotatedSize_of_even (d := d) (by omega)]
    exact ⟨⟨px, hpx, by omega⟩, ⟨pz, hpz, by omega⟩, ⟨oz, hoz, by omega⟩⟩
  · simp only [rotateOffset_of_three h, rotatedSize_of_odd (d := d) (by omega)]
    exact ⟨⟨oz, hoz, hz⟩, ⟨px, hpx, by omega⟩, ⟨ox, hox, by omega⟩⟩

theorem turned_bottom : ∃ o ∈ f.units, (rotateOffset o d f.size).y = 0 := by
  obtain ⟨o, ho, hy⟩ := f.touchesY
  refine ⟨o, ho, ?_⟩
  rcases mod_four_cases d with h | h | h | h
  · rw [rotateOffset_of_zero h, hy]
  · rw [rotateOffset_of_one h, hy]
  · rw [rotateOffset_of_two h, hy]
  · rw [rotateOffset_of_three h, hy]

end Footprint

/-! ## The quarter turn of a scene -/

/-- A cell of the world after a quarter turn about the vertical axis. -/
def turnCell (c : Cell) : Cell := rotateVector c 1

namespace Placed

/-- A placed block after the turn: its cells are turned, its anchor is their minimum corner, its
    rotation goes up by one. -/
def turn (p : Placed) : Placed where
  block := p.block
  footprint := p.footprint
  anchor := minCorner (p.cells.image turnCell) (p.cells_nonempty.image turnCell)
  rotation := (p.rotation + 1) % 4
  legal := by omega

theorem turnCell_eq (c : Cell) : turnCell c = ⟨-c.z, c.y, c.x⟩ :=
  rotateVector_of_one (by decide) c

/-- The corner with the least `x` and the greatest `z` becomes the minimum corner. -/
theorem turn_anchor (p : Placed) :
    p.turn.anchor = ⟨-(p.anchor.z + p.extent.z - 1), p.anchor.y, p.anchor.x⟩ := by
  obtain ⟨⟨ox, hox, hx⟩, -, ⟨oz, hoz, hz⟩⟩ := p.footprint.turned_reaches p.rotation
  obtain ⟨oy, hoy, hy⟩ := p.footprint.turned_bottom p.rotation
  have hcell : ∀ o ∈ p.footprint.units,
      turnCell (p.anchor + rotateOffset o p.rotation p.footprint.size) ∈ p.cells.image turnCell :=
    fun o ho => Finset.mem_image_of_mem _ (Finset.mem_image_of_mem _ ho)
  refine minCorner_eq (p.cells_nonempty.image turnCell) (fun c hc => ?_) ⟨_, hcell oz hoz, ?_⟩
    ⟨_, hcell oy hoy, ?_⟩ ⟨_, hcell ox hox, ?_⟩
  · obtain ⟨c', hc', rfl⟩ := Finset.mem_image.mp hc
    obtain ⟨o, ho, rfl⟩ := Finset.mem_image.mp hc'
    obtain ⟨h1, -, h2, -, -, h3⟩ := p.footprint.turned_inBox p.rotation ho
    rw [turnCell_eq]
    simp only [Cell.add_x, Cell.add_y, Cell.add_z, extent]
    omega
  · rw [turnCell_eq]
    simp only [Cell.add_z, extent, hz]
    omega
  · rw [turnCell_eq]
    simp [hy]
  · rw [turnCell_eq]
    simp [hx]

theorem turn_extent (p : Placed) : p.turn.extent = ⟨p.extent.z, p.extent.y, p.extent.x⟩ := by
  show rotatedSize p.footprint.size ((p.rotation + 1) % 4) = _
  rw [rotatedSize_mod, rotatedSize_succ]
  rfl

end Placed

/-! ## Keys -/

/-- The grammar key of a pair: both types, the offset in the frame of `a`, the relative rotation. -/
def grammarKey (a b : Placed) : String × String × Cell × Int :=
  (a.block, b.block, localOffset (b.anchor - a.anchor) a.rotation, (b.rotation - a.rotation) % 4)

/-- The displacement after the turn is the turned one, moved by the difference in depth. -/
theorem turn_diff (a b : Placed) :
    b.turn.anchor - a.turn.anchor =
      rotateVector (b.anchor - a.anchor) 1 + ⟨a.extent.z - b.extent.z, 0, 0⟩ := by
  rw [Placed.turn_anchor, Placed.turn_anchor, rotateVector_of_one (by decide)]
  refine Cell.ext ?_ ?_ ?_
  · simp only [Cell.sub_x, Cell.sub_z, Cell.add_x]
    omega
  · simp
  · simp

theorem add_eq_self_iff (c : Cell) (v : Int) : c + ⟨v, 0, 0⟩ = c ↔ v = 0 := by
  rw [Cell.ext_iff]
  simp only [Cell.add_x, Cell.add_y, Cell.add_z]
  omega

/-- One quarter turn keeps the key exactly when the two blocks are equally deep. -/
theorem grammarKey_turn_iff (a b : Placed) :
    grammarKey a.turn b.turn = grammarKey a b ↔ a.extent.z = b.extent.z := by
  have hrel : ((b.rotation + 1) % 4 - (a.rotation + 1) % 4) % 4 = (b.rotation - a.rotation) % 4 := by
    omega
  have hrot : a.turn.rotation = (a.rotation + 1) % 4 := rfl
  have hoffset : localOffset (b.turn.anchor - a.turn.anchor) a.turn.rotation =
      localOffset (b.anchor - a.anchor) a.rotation ↔ a.extent.z = b.extent.z := by
    rw [turn_diff, hrot, localOffset_mod, ← localOffset_add (b.anchor - a.anchor) a.rotation 1]
    constructor
    · intro h
      have h' := (add_eq_self_iff _ _).mp (rotateVector_injective h)
      omega
    · intro h
      rw [(add_eq_self_iff (rotateVector (b.anchor - a.anchor) 1) _).mpr (by omega)]
  rw [← hoffset]
  unfold grammarKey
  constructor
  · intro h
    exact (Prod.mk.inj (Prod.mk.inj (Prod.mk.inj h).2).2).1
  · intro h
    show (a.block, b.block, _, ((b.rotation + 1) % 4 - (a.rotation + 1) % 4) % 4) = _
    rw [h, hrel]

/-! ## Moves -/

/-- The move learned from a scene whose first block stands at rotation 0. -/
def learnMove (a b : Placed) (mapCount pairCount : Int) (clipMatched : Bool) : Move where
  block := b.block
  offset := (grammarKey a b).2.2.1
  relRotation := (grammarKey a b).2.2.2
  mapCount := mapCount
  pairCount := pairCount
  clipMatched := clipMatched

/-- A block after `n` quarter turns of the scene. -/
def turns (n : Nat) (p : Placed) : Placed := Placed.turn^[n] p

/-- The move puts `b` where the turned scene has it. -/
def LandsOn (m : Move) (a b : Placed) : Prop := m.apply a.anchor a.rotation = (b.anchor, b.rotation)

theorem turns_succ (n : Nat) (p : Placed) : turns (n + 1) p = (turns n p).turn :=
  Function.iterate_succ_apply' Placed.turn n p

theorem turns_rotation (n : Nat) (p : Placed) : (turns n p).rotation = (p.rotation + n) % 4 := by
  induction n with
  | zero =>
    have := p.legal
    show p.rotation = _
    omega
  | succ n ih =>
    rw [turns_succ]
    show ((turns n p).rotation + 1) % 4 = _
    rw [ih]
    omega

/-- The rotation always comes out right, so what counts is the displacement. -/
theorem landsOn_iff (a b : Placed) (ha : a.rotation = 0) (mapCount pairCount : Int)
    (clipMatched : Bool) (n : Nat) :
    LandsOn (learnMove a b mapCount pairCount clipMatched) (turns n a) (turns n b) ↔
      (turns n b).anchor - (turns n a).anchor = rotateVector (b.anchor - a.anchor) n := by
  have hoffset : (learnMove a b mapCount pairCount clipMatched).offset = b.anchor - a.anchor := by
    show localOffset (b.anchor - a.anchor) a.rotation = _
    rw [ha]
    rfl
  have hrel : ((turns n a).rotation + (learnMove a b mapCount pairCount clipMatched).relRotation) % 4
      = (turns n b).rotation := by
    have := b.legal
    show ((turns n a).rotation + (b.rotation - a.rotation) % 4) % 4 = _
    rw [turns_rotation, turns_rotation, ha]
    omega
  have hrotA : rotateVector (b.anchor - a.anchor) (turns n a).rotation =
      rotateVector (b.anchor - a.anchor) n := by
    rw [turns_rotation, rotateVector_mod, ha, Int.zero_add]
  unfold LandsOn Move.apply
  rw [hoffset, hrel, hrotA]
  constructor
  · intro h
    rw [← (Prod.mk.inj h).1, Cell.add_sub_self]
  · intro h
    rw [← h, Cell.add_sub_of]

theorem turns_diff_succ (n : Nat) (a b : Placed) :
    (turns (n + 1) b).anchor - (turns (n + 1) a).anchor =
      rotateVector ((turns n b).anchor - (turns n a).anchor) 1 +
        ⟨(turns n a).extent.z - (turns n b).extent.z, 0, 0⟩ := by
  rw [turns_succ, turns_succ, turn_diff]

/-- How far the displacement is off after one, two and three turns. -/
theorem turns_diff (a b : Placed) :
    (turns 1 b).anchor - (turns 1 a).anchor =
        rotateVector (b.anchor - a.anchor) 1 + ⟨a.extent.z - b.extent.z, 0, 0⟩ ∧
      (turns 2 b).anchor - (turns 2 a).anchor = rotateVector (b.anchor - a.anchor) 2 +
        ⟨a.extent.x - b.extent.x, 0, a.extent.z - b.extent.z⟩ ∧
      (turns 3 b).anchor - (turns 3 a).anchor = rotateVector (b.anchor - a.anchor) 3 +
        ⟨0, 0, a.extent.x - b.extent.x⟩ := by
  have h1 := turns_diff_succ 0 a b
  have h2 := turns_diff_succ 1 a b
  have h3 := turns_diff_succ 2 a b
  have e0 : ∀ p, turns 0 p = p := fun _ => rfl
  have e1 : ∀ p, (turns 1 p).extent = ⟨p.extent.z, p.extent.y, p.extent.x⟩ := Placed.turn_extent
  have e2 : ∀ p, (turns 2 p).extent = p.extent := by
    intro p
    rw [turns_succ, Placed.turn_extent, e1]
  have hone : ∀ v : Cell, rotateVector v 1 = ⟨-v.z, v.y, v.x⟩ :=
    fun v => rotateVector_of_one (by decide) v
  have htwo : ∀ v : Cell, rotateVector v 2 = ⟨-v.x, v.y, -v.z⟩ :=
    fun v => rotateVector_of_two (by decide) v
  have hthree : ∀ v : Cell, rotateVector v 3 = ⟨v.z, v.y, -v.x⟩ :=
    fun v => rotateVector_of_three (by decide) v
  simp only [e0, Nat.zero_add, Nat.reduceAdd] at h1 h2 h3
  refine ⟨h1, ?_, ?_⟩
  · rw [h2, h1, e1, e1, hone, hone, htwo]
    refine Cell.ext ?_ ?_ ?_ <;> simp only [Cell.add_x, Cell.add_y, Cell.add_z] <;> omega
  · rw [h3, h2, h1, e1, e1, e2, e2, hone, hone, hone, hthree]
    refine Cell.ext ?_ ?_ ?_ <;> simp only [Cell.add_x, Cell.add_y, Cell.add_z] <;> omega

theorem add_eq_self_iff_both (c : Cell) (v w : Int) : c + ⟨v, 0, w⟩ = c ↔ v = 0 ∧ w = 0 := by
  rw [Cell.ext_iff]
  simp only [Cell.add_x, Cell.add_y, Cell.add_z]
  omega

/-- The move lands right at every heading when the footprints are equally deep and wide. -/
theorem landsOn_all_iff (a b : Placed) (ha : a.rotation = 0) (mapCount pairCount : Int)
    (clipMatched : Bool) :
    (∀ n < 4, LandsOn (learnMove a b mapCount pairCount clipMatched) (turns n a) (turns n b)) ↔
      a.extent.x = b.extent.x ∧ a.extent.z = b.extent.z := by
  obtain ⟨h1, h2, h3⟩ := turns_diff a b
  have hland := landsOn_iff a b ha mapCount pairCount clipMatched
  constructor
  · intro h
    have hland2 := (hland 2).mp (h 2 (by decide))
    rw [h2] at hland2
    have hzero := (add_eq_self_iff_both _ _ _).mp hland2
    omega
  · rintro ⟨hx, hz⟩ n hn
    rw [hland]
    obtain rfl | rfl | rfl | rfl : n = 0 ∨ n = 1 ∨ n = 2 ∨ n = 3 := by omega
    · rfl
    · rw [h1]
      exact (add_eq_self_iff _ _).mpr (by omega)
    · rw [h2]
      exact (add_eq_self_iff_both _ _ _).mpr (by omega)
    · rw [h3]
      exact (add_eq_self_iff_both _ _ _).mpr (by omega)

/-- A quarter turn of a scene keeps its grammar key exactly when the two blocks, as they stand,
    have the same extent in `z`; a move learned at rotation 0 lands right at every heading exactly
    when they have the same extent in `x` too. -/
theorem rigidTurn_iff (a b : Placed) :
    (grammarKey a.turn b.turn = grammarKey a b ↔ a.extent.z = b.extent.z) ∧
    (a.rotation = 0 → ∀ (mapCount pairCount : Int) (clipMatched : Bool),
      (∀ n < 4, LandsOn (learnMove a b mapCount pairCount clipMatched) (turns n a) (turns n b)) ↔
        a.extent.x = b.extent.x ∧ a.extent.z = b.extent.z) :=
  ⟨grammarKey_turn_iff a b, fun ha maps pairs clip => landsOn_all_iff a b ha maps pairs clip⟩

/-- One cell. -/
def tileFootprint : Footprint where
  size := ⟨1, 1, 1⟩
  units := {⟨0, 0, 0⟩}
  inBox := by unfold InBox; decide
  touchesX := by decide
  touchesY := by decide
  touchesZ := by decide
  fillsX := by decide
  fillsZ := by decide

/-- Two cells in a row. -/
def rampFootprint : Footprint where
  size := ⟨1, 1, 2⟩
  units := {⟨0, 0, 0⟩, ⟨0, 0, 1⟩}
  inBox := by unfold InBox; decide
  touchesX := by decide
  touchesY := by decide
  touchesZ := by decide
  fillsX := by decide
  fillsZ := by decide

def tile : Placed := ⟨"PlatformTechBase", tileFootprint, ⟨10, 9, 10⟩, 0, by decide⟩

def ramp : Placed := ⟨"PlatformTechSlope", rampFootprint, ⟨10, 9, 11⟩, 0, by decide⟩

theorem rigidTurn_iff_tile_ramp :
    (grammarKey tile.turn ramp.turn = grammarKey tile ramp ↔ tile.extent.z = ramp.extent.z) ∧
    ((∀ n < 4, LandsOn (learnMove tile ramp 1 1 false) (turns n tile) (turns n ramp)) ↔
      tile.extent.x = ramp.extent.x ∧ tile.extent.z = ramp.extent.z) :=
  ⟨(rigidTurn_iff tile ramp).1, (rigidTurn_iff tile ramp).2 rfl 1 1 false⟩

/-- The ramp is stored one cell in front of the tile; after the turn the key says two cells. -/
theorem rigidTurn_changes_key :
    grammarKey tile.turn ramp.turn ≠ grammarKey tile ramp ∧
    ¬ LandsOn (learnMove tile ramp 1 1 false) (turns 1 tile) (turns 1 ramp) := by
  unfold LandsOn
  decide +kernel

end TraxMania.Constraints
