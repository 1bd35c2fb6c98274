import TraxMania.Catalogue.Block
import Mathlib.Data.List.Flatten

/-
  How the placement grammar writes a displacement between two blocks: in the frame of the first
  block, that is, turned back by its rotation, and by its index among the offsets of a
  neighbourhood (`_OffsetTable`).
-/

namespace TraxMania.Constraints

open TraxMania.Grid TraxMania.Catalogue

/-- `rotate_vector(off, (4 - a_rot) % 4)`. -/
def localOffset (off : Cell) (aRot : Int) : Cell := rotateVector off ((4 - aRot) % 4)

theorem localOffset_mod (off : Cell) (aRot : Int) :
    localOffset off (aRot % 4) = localOffset off aRot := by
  unfold localOffset
  congr 1
  omega

/-- Turned on by the rotation it was turned back by, a displacement is as it was. -/
theorem rotateVector_localOffset (off : Cell) (aRot : Int) :
    rotateVector (localOffset off aRot) aRot = off := by
  unfold localOffset
  rw [rotateVector_mod]
  rcases mod_four_cases aRot with h | h | h | h
  · rw [rotateVector_of_zero h, rotateVector_of_zero (by omega)]
  · rw [rotateVector_of_one h, rotateVector_of_three (by omega)]
    simp
  · rw [rotateVector_of_two h, rotateVector_of_two (by omega)]
    simp
  · rw [rotateVector_of_three h, rotateVector_of_one (by omega)]
    simp

/-- A scene turned as a whole writes a turned displacement as before. -/
theorem localOffset_add (off : Cell) (aRot k : Int) :
    localOffset (rotateVector off k) (aRot + k) = localOffset off aRot := by
  refine rotateVector_injective (d := aRot + k) ?_
  rw [rotateVector_localOffset, rotateVector_add, rotateVector_localOffset]

/-! ## The neighbourhood -/

/-- `range(-radius, radius + 1)`. -/
def span (radius : Nat) : List Int := (List.range (2 * radius + 1)).map fun i : Nat => (i : Int) - radius

/-- `_OffsetTable(radius_xz, radius_y)`. -/
structure OffsetTable where
  radiusXz : Nat
  radiusY : Nat

namespace OffsetTable

variable (t : OffsetTable)

/-- `offsets`. -/
def offsets : List Cell :=
  (span t.radiusXz).flatMap fun dx => (span t.radiusY).flatMap fun dy =>
    (span t.radiusXz).map fun dz => ⟨dx, dy, dz⟩

/-- `index[off]`. -/
def index (off : Cell) : Nat := t.offsets.idxOf off

/-- `rot_map[a_rot, index[off]]`: the index of the offset as a block at rotation `a_rot` sees it. -/
def rotMap (aRot : Int) (off : Cell) : Nat := t.index (localOffset off aRot)

/-- `len(table)`. -/
def size : Nat := t.offsets.length

/-- The box of the neighbourhood. -/
def Box (off : Cell) : Prop :=
  (-t.radiusXz ≤ off.x ∧ off.x ≤ t.radiusXz) ∧ (-t.radiusY ≤ off.y ∧ off.y ≤ t.radiusY) ∧
    -t.radiusXz ≤ off.z ∧ off.z ≤ t.radiusXz

instance (off : Cell) : Decidable (t.Box off) :=
  inferInstanceAs (Decidable ((_ ∧ _) ∧ (_ ∧ _) ∧ _ ∧ _))

end OffsetTable

theorem mem_span {radius : Nat} {v : Int} : v ∈ span radius ↔ -radius ≤ v ∧ v ≤ radius := by
  unfold span
  rw [List.mem_map]
  constructor
  · rintro ⟨i, hi, rfl⟩
    rw [List.mem_range] at hi
    omega
  · intro h
    exact ⟨(v + radius).toNat, List.mem_range.mpr (by omega), by omega⟩

theorem nodup_span (radius : Nat) : (span radius).Nodup := by
  refine List.Nodup.map (fun i j h => ?_) List.nodup_range
  have : (i : Int) - radius = j - radius := h
  omega

theorem length_span (radius : Nat) : (span radius).length = 2 * radius + 1 := by
  unfold span
  rw [List.length_map, List.length_range]

namespace OffsetTable

variable {t : OffsetTable}

theorem mem_offsets {off : Cell} : off ∈ t.offsets ↔ t.Box off := by
  unfold offsets Box
  simp only [List.mem_flatMap, List.mem_map, mem_span]
  constructor
  · rintro ⟨dx, hx, dy, hy, dz, hz, rfl⟩
    exact ⟨hx, hy, hz⟩
  · rintro ⟨hx, hy, hz⟩
    exact ⟨off.x, hx, off.y, hy, off.z, hz, rfl⟩

theorem nodup_offsets : t.offsets.Nodup := by
  unfold offsets
  rw [List.nodup_flatMap]
  refine ⟨fun dx _ => ?_, (nodup_span _).imp fun hne => ?_⟩
  · rw [List.nodup_flatMap]
    refine ⟨fun dy _ => (nodup_span _).map fun dz dz' h => congrArg Cell.z h,
      (nodup_span _).imp fun hne => ?_⟩
    intro c hc hc'
    obtain ⟨dz, -, rfl⟩ := List.mem_map.mp hc
    obtain ⟨dz', -, h⟩ := List.mem_map.mp hc'
    exact hne (congrArg Cell.y h).symm
  · intro c hc hc'
    obtain ⟨dy, -, hc⟩ := List.mem_flatMap.mp hc
    obtain ⟨dz, -, rfl⟩ := List.mem_map.mp hc
    obtain ⟨dy', -, hc'⟩ := List.mem_flatMap.mp hc'
    obtain ⟨dz', -, h⟩ := List.mem_map.mp hc'
    exact hne (congrArg Cell.x h).symm

theorem index_lt {off : Cell} (h : t.Box off) : t.index off < t.size :=
  List.idxOf_lt_length_of_mem (mem_offsets.mpr h)

theorem index_inj {off off' : Cell} (h : t.Box off) :
    t.index off = t.index off' ↔ off = off' :=
  List.idxOf_inj (mem_offsets.mpr h)

/-! ### The index of an offset -/

theorem getElem?_flatMap {α β : Type*} {f : α → List β} {m : Nat} (hf : ∀ a, (f a).length = m)
    (xs : List α) (i : Nat) {j : Nat} (hj : j < m) :
    (xs.flatMap f)[i * m + j]? = xs[i]?.bind fun a => (f a)[j]? := by
  induction xs generalizing i with
  | nil => simp
  | cons x xs ih =>
    rw [List.flatMap_cons]
    cases i with
    | zero =>
      rw [Nat.zero_mul, Nat.zero_add, List.getElem?_append_left (by rw [hf]; exact hj)]
      rfl
    | succ i =>
      rw [Nat.succ_mul, List.getElem?_append_right (by rw [hf]; omega), hf,
        show i * m + m + j - m = i * m + j by omega, ih]
      rfl

theorem length_flatMap_const {α β : Type*} {f : α → List β} {m : Nat} (hf : ∀ a, (f a).length = m)
    (xs : List α) : (xs.flatMap f).length = xs.length * m := by
  induction xs with
  | nil => simp
  | cons x xs ih => rw [List.flatMap_cons, List.length_append, hf, ih, List.length_cons,
      Nat.succ_mul, Nat.add_comm]

theorem getElem?_span {radius : Nat} {v : Int} (h : -radius ≤ v ∧ v ≤ radius) :
    (span radius)[(v + radius).toNat]? = some v := by
  unfold span
  rw [List.getElem?_map, List.getElem?_range (by omega)]
  refine congrArg some ?_
  show ((v + radius).toNat : Int) - radius = v
  omega

theorem length_row (t : OffsetTable) (dx dy : Int) :
    ((span t.radiusXz).map fun dz => (⟨dx, dy, dz⟩ : Cell)).length = 2 * t.radiusXz + 1 := by
  rw [List.length_map, length_span]

theorem length_slab (t : OffsetTable) (dx : Int) :
    ((span t.radiusY).flatMap fun dy => (span t.radiusXz).map fun dz => (⟨dx, dy, dz⟩ : Cell)).length
      = (2 * t.radiusY + 1) * (2 * t.radiusXz + 1) := by
  rw [length_flatMap_const (length_row t dx), length_span]

theorem size_eq (t : OffsetTable) :
    t.size = (2 * t.radiusXz + 1) * ((2 * t.radiusY + 1) * (2 * t.radiusXz + 1)) := by
  unfold size offsets
  rw [length_flatMap_const (length_slab t), length_span]

/-- Where the three loops put an offset. -/
theorem index_eq {off : Cell} (h : t.Box off) :
    t.index off = (off.x + t.radiusXz).toNat * ((2 * t.radiusY + 1) * (2 * t.radiusXz + 1)) +
      ((off.y + t.radiusY).toNat * (2 * t.radiusXz + 1) + (off.z + t.radiusXz).toNat) := by
  obtain ⟨hx, hy, hz⟩ := h
  have hk : (off.z + t.radiusXz).toNat < 2 * t.radiusXz + 1 := by omega
  have hj : (off.y + t.radiusY).toNat * (2 * t.radiusXz + 1) + (off.z + t.radiusXz).toNat <
      (2 * t.radiusY + 1) * (2 * t.radiusXz + 1) := by
    have hle : (off.y + t.radiusY).toNat + 1 ≤ 2 * t.radiusY + 1 := by omega
    have := Nat.mul_le_mul_right (2 * t.radiusXz + 1) hle
    rw [Nat.succ_mul] at this
    omega
  have hget : t.offsets[(off.x + t.radiusXz).toNat *
      ((2 * t.radiusY + 1) * (2 * t.radiusXz + 1)) +
      ((off.y + t.radiusY).toNat * (2 * t.radiusXz + 1) + (off.z + t.radiusXz).toNat)]? =
      some off := by
    unfold offsets
    rw [getElem?_flatMap (length_slab t) _ _ hj, getElem?_span hx, Option.bind_some,
      getElem?_flatMap (length_row t off.x) _ _ hk, getElem?_span hy, Option.bind_some,
      List.getElem?_map, getElem?_span hz]
    rfl
  obtain ⟨hlt, hval⟩ := List.getElem?_eq_some_iff.mp hget
  unfold index
  have hidx := (nodup_offsets (t := t)).idxOf_getElem _ hlt
  rwa [hval] at hidx

/-- The box is square in XZ, so a turned offset stays inside it. -/
theorem box_rotateVector {off : Cell} (h : t.Box off) (d : Int) : t.Box (rotateVector off d) := by
  unfold Box at h ⊢
  rcases mod_four_cases d with hd | hd | hd | hd
  · rwa [rotateVector_of_zero hd]
  · rw [rotateVector_of_one hd]
    dsimp only
    omega
  · rw [rotateVector_of_two hd]
    dsimp only
    omega
  · rw [rotateVector_of_three hd]
    dsimp only
    omega

theorem box_localOffset {off : Cell} (h : t.Box off) (aRot : Int) : t.Box (localOffset off aRot) :=
  box_rotateVector h _

end OffsetTable

/-- A displacement is stored as `off` exactly when it is `off` turned by the first block. -/
theorem localOffset_eq_iff {v off : Cell} {aRot : Int} :
    localOffset v aRot = off ↔ v = rotateVector off aRot := by
  constructor
  · rintro rfl
    exact (rotateVector_localOffset v aRot).symm
  · rintro rfl
    refine rotateVector_injective (d := aRot) ?_
    rw [rotateVector_localOffset]

end TraxMania.Constraints
