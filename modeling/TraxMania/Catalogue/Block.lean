import TraxMania.Grid.Cell
import TraxMania.Lib.Dict
import Mathlib.Algebra.GroupWithZero.Nat
import Mathlib.Data.Set.Function

/-
  The block catalogue as its loader holds it: for every variant of a block its unit cells and the
  clips on their faces.

  Before it the quarter turns that the loader computes: of a cell inside a block's box
  (`rotate_offset`, re-anchored to the box), of a displacement (`rotate_vector`), of a box
  (`rotated_size`) and of a side face (`rotate_face`).
-/

namespace TraxMania.Catalogue

open TraxMania.Grid Lib

/-! ## Faces -/

/-- A side face: 0 north, 1 east, 2 south, 3 west. -/
abbrev Face := Fin 4

instance neZero_four : NeZero 4 := ⟨by decide⟩

/-- `FACE_DELTAS[face]`. -/
def faceDelta : Face → Cell
  | 0 => ⟨0, 0, 1⟩
  | 1 => ⟨-1, 0, 0⟩
  | 2 => ⟨0, 0, -1⟩
  | 3 => ⟨1, 0, 0⟩

/-- `opposite_face(face)`. -/
def oppositeFace (face : Face) : Face := ⟨(face.val + 2) % 4, Nat.mod_lt _ (by decide)⟩

/-- `rotate_face(face, direction)`. -/
def rotateFace (face : Face) (direction : Int) : Face :=
  ⟨((face.val + direction) % 4).toNat, by omega⟩

/-! ## Offsets, vectors, sizes -/

/-- `rotate_offset(offset, direction, size)`. -/
def rotateOffset (offset : Cell) (direction : Int) (size : Cell) : Cell :=
  let d := direction % 4
  if d = 0 then offset
  else if d = 1 then ⟨size.z - 1 - offset.z, offset.y, offset.x⟩
  else if d = 2 then ⟨size.x - 1 - offset.x, offset.y, size.z - 1 - offset.z⟩
  else ⟨offset.z, offset.y, size.x - 1 - offset.x⟩

/-- `rotate_vector(offset, direction)`. -/
def rotateVector (offset : Cell) (direction : Int) : Cell :=
  let d := direction % 4
  if d = 0 then offset
  else if d = 1 then ⟨-offset.z, offset.y, offset.x⟩
  else if d = 2 then ⟨-offset.x, offset.y, -offset.z⟩
  else ⟨offset.z, offset.y, -offset.x⟩

/-- `rotated_size(size, direction)`. -/
def rotatedSize (size : Cell) (direction : Int) : Cell :=
  if direction % 2 = 1 then ⟨size.z, size.y, size.x⟩ else size

/-! ## One equation for each direction -/

section Directions

variable {d : Int}

theorem rotateVector_of_zero (h : d % 4 = 0) (v : Cell) : rotateVector v d = v := by
  simp [rotateVector, h]

theorem rotateVector_of_one (h : d % 4 = 1) (v : Cell) :
    rotateVector v d = ⟨-v.z, v.y, v.x⟩ := by
  simp [rotateVector, h]

theorem rotateVector_of_two (h : d % 4 = 2) (v : Cell) :
    rotateVector v d = ⟨-v.x, v.y, -v.z⟩ := by
  simp [rotateVector, h]

theorem rotateVector_of_three (h : d % 4 = 3) (v : Cell) :
    rotateVector v d = ⟨v.z, v.y, -v.x⟩ := by
  simp [rotateVector, h]

theorem rotateOffset_of_zero (h : d % 4 = 0) (o size : Cell) : rotateOffset o d size = o := by
  simp [rotateOffset, h]

theorem rotateOffset_of_one (h : d % 4 = 1) (o size : Cell) :
    rotateOffset o d size = ⟨size.z - 1 - o.z, o.y, o.x⟩ := by
  simp [rotateOffset, h]

theorem rotateOffset_of_two (h : d % 4 = 2) (o size : Cell) :
    rotateOffset o d size = ⟨size.x - 1 - o.x, o.y, size.z - 1 - o.z⟩ := by
  simp [rotateOffset, h]

theorem rotateOffset_of_three (h : d % 4 = 3) (o size : Cell) :
    rotateOffset o d size = ⟨o.z, o.y, size.x - 1 - o.x⟩ := by
  simp [rotateOffset, h]

theorem rotatedSize_of_even (h : d % 2 = 0) (size : Cell) : rotatedSize size d = size := by
  simp [rotatedSize, h]

theorem rotatedSize_of_odd (h : d % 2 = 1) (size : Cell) :
    rotatedSize size d = ⟨size.z, size.y, size.x⟩ := by
  simp [rotatedSize, h]

theorem mod_four_cases (d : Int) : d % 4 = 0 ∨ d % 4 = 1 ∨ d % 4 = 2 ∨ d % 4 = 3 := by omega

theorem mod_mod_four (d : Int) : d % 4 % 4 = d % 4 := by omega

end Directions

/-! ## Turns compose -/

theorem rotateVector_mod (v : Cell) (d : Int) : rotateVector v (d % 4) = rotateVector v d := by
  unfold rotateVector
  rw [mod_mod_four]

theorem rotateVector_succ (v : Cell) (d : Int) :
    rotateVector v (d + 1) = rotateVector (rotateVector v d) 1 := by
  rw [rotateVector_of_one (by decide) (rotateVector v d)]
  rcases mod_four_cases d with h | h | h | h
  · rw [rotateVector_of_zero h, rotateVector_of_one (by omega)]
  · rw [rotateVector_of_one h, rotateVector_of_two (by omega)]
  · rw [rotateVector_of_two h, rotateVector_of_three (by omega)]
    simp
  · rw [rotateVector_of_three h, rotateVector_of_zero (by omega)]
    simp

/-- Turning by a sum is turning twice. -/
theorem rotateVector_add (v : Cell) (d k : Int) :
    rotateVector v (d + k) = rotateVector (rotateVector v d) k := by
  have hnat : ∀ n : Nat, rotateVector v (d + n) = rotateVector (rotateVector v d) n := by
    intro n
    induction n with
    | zero =>
      rw [Int.natCast_zero, Int.add_zero, rotateVector_of_zero (d := 0) (by decide)]
    | succ n ih =>
      rw [Int.natCast_succ, ← Int.add_assoc, rotateVector_succ, ih, rotateVector_succ _ (n : Int)]
  have hmod : ((k % 4).toNat : Int) = k % 4 := by omega
  have h := hnat (k % 4).toNat
  rw [hmod, rotateVector_mod, ← rotateVector_mod v (d + k % 4)] at h
  rw [← h, ← rotateVector_mod v (d + k)]
  congr 1
  omega

theorem rotateVector_sum (v w : Cell) (d : Int) :
    rotateVector (v + w) d = rotateVector v d + rotateVector w d := by
  rcases mod_four_cases d with h | h | h | h
  · simp only [rotateVector_of_zero h]
  · simp only [rotateVector_of_one h]
    exact Cell.ext (by simp; omega) rfl rfl
  · simp only [rotateVector_of_two h]
    exact Cell.ext (by simp; omega) rfl (by simp; omega)
  · simp only [rotateVector_of_three h]
    exact Cell.ext rfl rfl (by simp; omega)

theorem rotateVector_y (v : Cell) (d : Int) : (rotateVector v d).y = v.y := by
  rcases mod_four_cases d with h | h | h | h
  · rw [rotateVector_of_zero h]
  · rw [rotateVector_of_one h]
  · rw [rotateVector_of_two h]
  · rw [rotateVector_of_three h]

/-- A cell of a box moved by `v` turns to the turned cell moved by the turned `v`. -/
theorem rotateOffset_shift (o v size : Cell) (d : Int) :
    rotateOffset (o + v) d size = rotateOffset o d size + rotateVector v d := by
  rcases mod_four_cases d with h | h | h | h
  · simp only [rotateOffset_of_zero h, rotateVector_of_zero h]
  · simp only [rotateOffset_of_one h, rotateVector_of_one h]
    exact Cell.ext (by simp; omega) rfl rfl
  · simp only [rotateOffset_of_two h, rotateVector_of_two h]
    exact Cell.ext (by simp; omega) rfl (by simp; omega)
  · simp only [rotateOffset_of_three h, rotateVector_of_three h]
    exact Cell.ext rfl rfl (by simp; omega)

/-- Turning a displacement loses nothing. -/
theorem rotateVector_injective {v w : Cell} {d : Int} (h : rotateVector v d = rotateVector w d) :
    v = w := by
  have hx := congrArg Cell.x h
  have hy := congrArg Cell.y h
  have hz := congrArg Cell.z h
  rcases mod_four_cases d with hd | hd | hd | hd
  · rwa [rotateVector_of_zero hd, rotateVector_of_zero hd] at h
  · simp only [rotateVector_of_one hd] at hx hy hz
    exact Cell.ext hz hy (by omega)
  · simp only [rotateVector_of_two hd] at hx hy hz
    exact Cell.ext (by omega) hy (by omega)
  · simp only [rotateVector_of_three hd] at hx hy hz
    exact Cell.ext (by omega) hy hx

/-! ## Faces turn with their blocks -/

theorem rotateFace_mod (face : Face) (d : Int) : rotateFace face (d % 4) = rotateFace face d := by
  unfold rotateFace
  simp

theorem rotateFace_add (face : Face) (d k : Int) :
    rotateFace face (d + k) = rotateFace (rotateFace face d) k := by
  unfold rotateFace
  refine Fin.ext ?_
  dsimp only
  omega

theorem rotateFace_zero (face : Face) : rotateFace face 0 = face := by
  revert face
  decide

/-- The face of a turned block looks where the turned delta points. -/
theorem faceDelta_rotateFace (face : Face) (d : Int) :
    faceDelta (rotateFace face d) = rotateVector (faceDelta face) d := by
  rw [← rotateFace_mod, ← rotateVector_mod]
  rcases mod_four_cases d with h | h | h | h
  · rw [h]
    revert face
    decide
  · rw [h]
    revert face
    decide
  · rw [h]
    revert face
    decide
  · rw [h]
    revert face
    decide

theorem faceDelta_opposite (face : Face) (c : Cell) :
    c + faceDelta face + faceDelta (oppositeFace face) = c := by
  have h : faceDelta face + faceDelta (oppositeFace face) = ⟨0, 0, 0⟩ := by
    revert face
    decide
  have hx := congrArg Cell.x h
  have hy := congrArg Cell.y h
  have hz := congrArg Cell.z h
  simp only [Cell.add_x, Cell.add_y, Cell.add_z] at hx hy hz
  exact Cell.ext (by simp; omega) (by simp; omega) (by simp; omega)

/-! ## A box and its turned box -/

/-- Inside the box `size` at the origin. -/
def InBox (size o : Cell) : Prop :=
  0 ≤ o.x ∧ o.x < size.x ∧ 0 ≤ o.y ∧ o.y < size.y ∧ 0 ≤ o.z ∧ o.z < size.z

theorem rotatedSize_succ (size : Cell) (d : Int) :
    rotatedSize size (d + 1) =
      ⟨(rotatedSize size d).z, (rotatedSize size d).y, (rotatedSize size d).x⟩ := by
  by_cases h : d % 2 = 1
  · rw [rotatedSize_of_even (by omega), rotatedSize_of_odd h]
  · rw [rotatedSize_of_odd (by omega), rotatedSize_of_even (by omega)]

theorem rotatedSize_mod (size : Cell) (d : Int) :
    rotatedSize size (d % 4) = rotatedSize size d := by
  have h : d % 4 % 2 = d % 2 := by omega
  unfold rotatedSize
  rw [h]

theorem rotateOffset_mod (o size : Cell) (d : Int) :
    rotateOffset o (d % 4) size = rotateOffset o d size := by
  unfold rotateOffset
  rw [mod_mod_four]

/-- One quarter turn more. -/
theorem rotateOffset_succ (o size : Cell) (d : Int) :
    rotateOffset o (d + 1) size =
      ⟨(rotatedSize size d).z - 1 - (rotateOffset o d size).z, (rotateOffset o d size).y,
        (rotateOffset o d size).x⟩ := by
  rcases mod_four_cases d with h | h | h | h
  · rw [rotateOffset_of_zero h, rotateOffset_of_one (by omega), rotatedSize_of_even (by omega)]
  · rw [rotateOffset_of_one h, rotateOffset_of_two (by omega), rotatedSize_of_odd (by omega)]
  · rw [rotateOffset_of_two h, rotateOffset_of_three (by omega), rotatedSize_of_even (by omega)]
    exact Cell.ext (by dsimp only; omega) rfl rfl
  · rw [rotateOffset_of_three h, rotateOffset_of_zero (by omega), rotatedSize_of_odd (by omega)]
    exact Cell.ext (by dsimp only; omega) rfl rfl

theorem rotateOffset_injective {o o' size : Cell} {d : Int}
    (h : rotateOffset o d size = rotateOffset o' d size) : o = o' := by
  have hx := congrArg Cell.x h
  have hy := congrArg Cell.y h
  have hz := congrArg Cell.z h
  rcases mod_four_cases d with hd | hd | hd | hd
  · rwa [rotateOffset_of_zero hd, rotateOffset_of_zero hd] at h
  · simp only [rotateOffset_of_one hd] at hx hy hz
    exact Cell.ext hz hy (by omega)
  · simp only [rotateOffset_of_two hd] at hx hy hz
    exact Cell.ext (by omega) hy (by omega)
  · simp only [rotateOffset_of_three hd] at hx hy hz
    exact Cell.ext (by omega) hy hx

theorem inBox_rotateOffset {size o : Cell} (h : InBox size o) (d : Int) :
    InBox (rotatedSize size d) (rotateOffset o d size) := by
  unfold InBox at *
  rcases mod_four_cases d with hd | hd | hd | hd
  · rw [rotateOffset_of_zero hd, rotatedSize_of_even (by omega)]
    exact h
  · rw [rotateOffset_of_one hd, rotatedSize_of_odd (by omega)]
    dsimp only
    omega
  · rw [rotateOffset_of_two hd, rotatedSize_of_even (by omega)]
    dsimp only
    omega
  · rw [rotateOffset_of_three hd, rotatedSize_of_odd (by omega)]
    dsimp only
    omega

theorem rotatedSize_add (size : Cell) (d k : Int) :
    rotatedSize (rotatedSize size d) k = rotatedSize size (d + k) := by
  by_cases hd : d % 2 = 1
  · by_cases hk : k % 2 = 1
    · rw [rotatedSize_of_odd hd, rotatedSize_of_odd hk, rotatedSize_of_even (by omega)]
    · rw [rotatedSize_of_odd hd, rotatedSize_of_even (by omega), rotatedSize_of_odd (by omega)]
  · by_cases hk : k % 2 = 1
    · have heven : rotatedSize size d = size := rotatedSize_of_even (by omega) size
      rw [heven, rotatedSize_of_odd hk, rotatedSize_of_odd (by omega)]
    · have heven : rotatedSize size d = size := rotatedSize_of_even (by omega) size
      rw [heven, rotatedSize_of_even (by omega), rotatedSize_of_even (by omega)]

/-- Turning a cell by a sum is turning it twice, the second time in the turned box. -/
theorem rotateOffset_add (o size : Cell) (d k : Int) :
    rotateOffset (rotateOffset o d size) k (rotatedSize size d) = rotateOffset o (d + k) size := by
  have hnat : ∀ n : Nat, rotateOffset (rotateOffset o d size) n (rotatedSize size d) =
      rotateOffset o (d + n) size := by
    intro n
    induction n with
    | zero => rw [Int.natCast_zero, Int.add_zero, rotateOffset_of_zero (d := 0) (by decide)]
    | succ n ih =>
      rw [Int.natCast_succ, ← Int.add_assoc, rotateOffset_succ _ (rotatedSize size d), ih,
        rotatedSize_add, rotateOffset_succ o size]
  have hmod : ((k % 4).toNat : Int) = k % 4 := by omega
  have h := hnat (k % 4).toNat
  rw [hmod, rotateOffset_mod, ← rotateOffset_mod o size (d + k % 4)] at h
  rw [h, ← rotateOffset_mod o size (d + k)]
  congr 1
  omega

/-- The cells of a box turn one to one onto the cells of the turned box. -/
theorem rotateOffset_bijOn (size : Cell) (d : Int) :
    Set.BijOn (fun o => rotateOffset o d size) {o | InBox size o}
      {o | InBox (rotatedSize size d) o} := by
  have hback : rotatedSize (rotatedSize size d) (-d) = size := by
    rw [rotatedSize_add, Int.add_right_neg, rotatedSize_of_even (by decide)]
  have hinv : Set.InvOn (fun o => rotateOffset o (-d) (rotatedSize size d))
      (fun o => rotateOffset o d size) {o | InBox size o} {o | InBox (rotatedSize size d) o} := by
    constructor
    · intro o _
      dsimp only
      rw [rotateOffset_add, Int.add_right_neg, rotateOffset_of_zero (by decide)]
    · intro o _
      have h := rotateOffset_add o (rotatedSize size d) (-d) d
      rw [hback, Int.add_left_neg, rotateOffset_of_zero (d := 0) (by decide)] at h
      exact h
  refine hinv.bijOn (fun o ho => inBox_rotateOffset ho d) (fun o ho => ?_)
  have hbox := inBox_rotateOffset ho (-d)
  rw [hback] at hbox
  exact hbox

/-- Cells that share a face share the turned face after a turn, and only they do. -/
theorem rotateOffset_faceDelta_iff {o o' size : Cell} {face : Face} {d : Int} :
    rotateOffset o' d size = rotateOffset o d size + faceDelta (rotateFace face d) ↔
      o' = o + faceDelta face := by
  rw [faceDelta_rotateFace, ← rotateOffset_shift]
  constructor
  · intro h
    exact rotateOffset_injective h
  · intro h
    rw [h]

/-! ## Blocks -/

/-- One connectable face of one unit cell, in local space. -/
structure UnitPort where
  offset : Cell
  face : Face
  clipId : String
deriving DecidableEq

structure BlockUnit where
  offset : Cell
  clips : Dict String (List String)

structure BlockVariant where
  kind : String
  index : Int
  size : Cell
  units : List BlockUnit

/-- `enumerate(SIDE_FACES)`. -/
def sideFaces : List (Face × String) := [(0, "n"), (1, "e"), (2, "s"), (3, "w")]

/-- The ports of one unit, as `side_ports` lists them. -/
def BlockUnit.sidePorts (unit : BlockUnit) : List UnitPort :=
  sideFaces.flatMap fun (face, key) =>
    ((unit.clips.get? key).getD []).map fun clip => ⟨unit.offset, face, clip⟩

/-- `side_ports`. -/
def BlockVariant.sidePorts (v : BlockVariant) : List UnitPort := v.units.flatMap BlockUnit.sidePorts

structure BlockDef where
  blockId : String
  waypoint : String
  variants : List BlockVariant

/-- `variant(kind, index)`. -/
def BlockDef.variant (b : BlockDef) (kind : String) (index : Int) : Option BlockVariant :=
  b.variants.find? fun v => v.kind == kind && v.index == index

/-- The cell of a port is one of the variant's cells. -/
theorem sidePorts_offset {v : BlockVariant} {p : UnitPort} (hp : p ∈ v.sidePorts) :
    p.offset ∈ v.units.map BlockUnit.offset := by
  obtain ⟨unit, hunit, hp⟩ := List.mem_flatMap.mp hp
  obtain ⟨face, -, hp⟩ := List.mem_flatMap.mp hp
  obtain ⟨clip, -, rfl⟩ := List.mem_map.mp hp
  exact List.mem_map.mpr ⟨unit, hunit, rfl⟩

end TraxMania.Catalogue
