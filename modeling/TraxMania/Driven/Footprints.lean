import TraxMania.Driven.BlockMatcher
import TraxMania.Generation.AiScoring
import TraxMania.Generation.GrammarWalker

/-
  Two models of a long block's footprint. The geometry validator and the block-by-block generator
  let the cells run from the placement cell along the block's direction; the catalogue turns the
  unit cells and puts the min corner of the turned box at the placement cell. They agree at the
  first two of the four rotations only.
-/

namespace TraxMania.Driven

open TraxMania.Grid TraxMania.Catalogue TraxMania.Generation TraxMania.Generation.Validation Lib

/-! ## The cells of a bar -/

/-- The `i`-th unit of a block along x. -/
def barUnit (i : Nat) : Cell := ⟨i, 0, 0⟩

/-- A variant of size `(n, 1, 1)` with the units `(0, 0, 0)` to `(n - 1, 0, 0)`. -/
structure IsBar (v : BlockVariant) (n : Nat) : Prop where
  size : v.size = ⟨n, 1, 1⟩
  units : v.units.map BlockUnit.offset = (List.range n).map barUnit

/-- The cells of a bar, as the catalogue turns it. -/
theorem unitCells_bar {v : BlockVariant} {n : Nat} (hv : IsBar v n) (origin : Cell)
    (rotation : Int) :
    unitCells v origin rotation =
      (List.range n).map fun i => origin + rotateOffset (barUnit i) rotation ⟨n, 1, 1⟩ := by
  have hcells : unitCells v origin rotation =
      (v.units.map BlockUnit.offset).map fun o => origin + rotateOffset o rotation ⟨n, 1, 1⟩ := by
    rw [List.map_map, unitCells, hv.size]
    rfl
  rw [hcells, hv.units, List.map_map]
  rfl

theorem add_rotateVector_barUnit (origin : Cell) (rotation : Int) (i : Nat) :
    origin + rotateVector (barUnit i) rotation =
      match rotation % 4 with
      | 0 => ⟨origin.x + i, origin.y, origin.z⟩
      | 1 => ⟨origin.x, origin.y, origin.z + i⟩
      | 2 => ⟨origin.x - i, origin.y, origin.z⟩
      | _ => ⟨origin.x, origin.y, origin.z - i⟩ := by
  rcases mod_four_cases rotation with h | h | h | h
  · rw [h, rotateVector_of_zero h]
    exact Cell.ext (by simp [barUnit]) (by simp [barUnit]) (by simp [barUnit])
  · rw [h, rotateVector_of_one h]
    exact Cell.ext (by simp [barUnit]) (by simp [barUnit]) (by simp [barUnit])
  · rw [h, rotateVector_of_two h]
    exact Cell.ext (by simp [barUnit]; omega) (by simp [barUnit]) (by simp [barUnit])
  · rw [h, rotateVector_of_three h]
    exact Cell.ext (by simp [barUnit]) (by simp [barUnit]) (by simp [barUnit]; omega)

/-- The shadow runs along the turned x axis, from the placement cell on. -/
theorem footprintShadowCells_eq {n : Nat} (hn : 1 ≤ n) (origin : Cell) (rotation : Int) :
    footprintShadowCells origin rotation n =
      (List.range n).map fun i => origin + rotateVector (barUnit i) rotation := by
  simp only [add_rotateVector_barUnit]
  unfold footprintShadowCells
  by_cases hone : (n : Int) ≤ 1
  · obtain rfl : n = 1 := by omega
    rw [if_pos hone]
    rcases mod_four_cases rotation with h | h | h | h
    · simp [h]
    · simp [h]
    · simp [h]
    · simp [h]
  · rw [if_neg hone]
    rcases mod_four_cases rotation with h | h | h | h
    · simp [h, Function.comp_def]
    · simp [h, Function.comp_def]
    · simp [h, Function.comp_def]
    · simp [h, Function.comp_def]

/-! ## Where the two agree -/

theorem rotateOffset_bar_of_lt_two {rotation : Int} (h : rotation % 4 = 0 ∨ rotation % 4 = 1)
    (n i : Nat) :
    rotateOffset (barUnit i) rotation ⟨n, 1, 1⟩ = rotateVector (barUnit i) rotation := by
  rcases h with h | h
  · rw [rotateOffset_of_zero h, rotateVector_of_zero h]
  · rw [rotateOffset_of_one h, rotateVector_of_one h]
    rfl

/-- Turned half or three quarters, the catalogue's cells end at the placement cell and the shadow
    starts there. -/
theorem barUnit_one_notMem {rotation : Int} (h : rotation % 4 = 2 ∨ rotation % 4 = 3) {n i : Nat}
    (hi : i < n) (origin : Cell) :
    origin + rotateVector (barUnit 1) rotation ≠
      origin + rotateOffset (barUnit i) rotation ⟨n, 1, 1⟩ := by
  intro heq
  have hx := congrArg Cell.x heq
  have hz := congrArg Cell.z heq
  rcases h with h | h
  · simp only [rotateVector_of_two h, rotateOffset_of_two h, Cell.add_x, barUnit] at hx
    omega
  · simp only [rotateVector_of_three h, rotateOffset_of_three h, Cell.add_z, barUnit] at hz
    omega

/-- The validator, the generator and the catalogue give a bar the same cells. -/
def SameFootprint (v : BlockVariant) (n : Nat) (origin : Cell) (rotation : Int) : Prop :=
  ∀ c, (c ∈ footprintShadowCells origin rotation n ↔ c ∈ unitCells v origin rotation) ∧
    (c ∈ Ai.footprintCells origin rotation n ↔ c ∈ unitCells v origin rotation)

/-- The three footprints of a bar of length `n` are one exactly when it is a single cell or is
    turned by at most a quarter. -/
theorem sameFootprint_iff {v : BlockVariant} {n : Nat} (hv : IsBar v n) (hn : 1 ≤ n)
    (origin : Cell) (rotation : Int) :
    SameFootprint v n origin rotation ↔ n = 1 ∨ rotation % 4 = 0 ∨ rotation % 4 = 1 := by
  unfold SameFootprint Ai.footprintCells
  rw [footprintShadowCells_eq hn, unitCells_bar hv]
  constructor
  · intro hsame
    by_contra hcond
    have hlong : 1 < n := by omega
    have hturn : rotation % 4 = 2 ∨ rotation % 4 = 3 := by omega
    have hmem : origin + rotateVector (barUnit 1) rotation ∈
        (List.range n).map fun i => origin + rotateVector (barUnit i) rotation :=
      List.mem_map.mpr ⟨1, List.mem_range.mpr hlong, rfl⟩
    obtain ⟨i, hi, heq⟩ := List.mem_map.mp ((hsame _).1.mp hmem)
    exact barUnit_one_notMem hturn (List.mem_range.mp hi) origin heq.symm
  · intro hcond
    have hlists : ∀ i ∈ List.range n, rotateVector (barUnit i) rotation =
        rotateOffset (barUnit i) rotation ⟨n, 1, 1⟩ := by
      intro i hi
      by_cases hturn : rotation % 4 = 0 ∨ rotation % 4 = 1
      · exact (rotateOffset_bar_of_lt_two hturn n i).symm
      · -- the only cell of a bar of length one stays at the origin
        obtain rfl : n = 1 := by omega
        obtain rfl : i = 0 := by simpa using hi
        rcases mod_four_cases rotation with h | h | h | h
        · rw [rotateOffset_of_zero h, rotateVector_of_zero h]
        · rw [rotateOffset_of_one h, rotateVector_of_one h]; rfl
        · rw [rotateOffset_of_two h, rotateVector_of_two h]; rfl
        · rw [rotateOffset_of_three h, rotateVector_of_three h]; rfl
    have heq : ((List.range n).map fun i => origin + rotateVector (barUnit i) rotation) =
        (List.range n).map fun i => origin + rotateOffset (barUnit i) rotation ⟨n, 1, 1⟩ :=
      List.map_congr_left fun i hi => by rw [hlists i hi]
    intro c
    rw [heq]
    exact ⟨Iff.rfl, Iff.rfl⟩

/-- The bar as a catalogue variant. -/
def barVariant (n : Nat) : BlockVariant where
  kind := "ground"
  index := 0
  size := ⟨n, 1, 1⟩
  units := (List.range n).map fun i => ⟨barUnit i, Dict.empty⟩

theorem isBar_barVariant (n : Nat) : IsBar (barVariant n) n where
  size := rfl
  units := by
    rw [barVariant, List.map_map]
    rfl

theorem sameFootprint_quarter :
    IsBar (barVariant 4) 4 ∧ 1 ≤ 4 ∧ (SameFootprint (barVariant 4) 4 ⟨10, 9, 10⟩ 1 ↔
      4 = 1 ∨ (1 : Int) % 4 = 0 ∨ (1 : Int) % 4 = 1) :=
  ⟨isBar_barVariant 4, by decide, sameFootprint_iff (isBar_barVariant 4) (by decide) ⟨10, 9, 10⟩ 1⟩

/-- Two cells turned half: the validator looks at the cell before the placement cell, the catalogue
    fills the one after it. -/
theorem not_sameFootprint_half : ¬ SameFootprint (barVariant 2) 2 ⟨10, 9, 10⟩ 2 := by
  intro h
  have hshadow : (⟨9, 9, 10⟩ : Cell) ∈ footprintShadowCells ⟨10, 9, 10⟩ 2 (2 : Nat) := by decide
  have hunits : (⟨9, 9, 10⟩ : Cell) ∉ unitCells (barVariant 2) ⟨10, 9, 10⟩ 2 := by decide
  exact hunits ((h _).1.mp hshadow)

/-! ## The readers of the catalogue -/

end TraxMania.Driven
