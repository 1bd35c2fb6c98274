import Mathlib.Data.Prod.Lex
import Mathlib.Data.Int.Order.Basic
import Mathlib.Data.Finset.Basic

/-
  Grid cells `(x, y, z)`, ordered as Python orders tuples, and frozen sets with the order in
  which they are iterated.
-/

namespace TraxMania.Grid

/-- A cell `(x, y, z)` of the map grid. -/
@[ext] structure Cell where
  x : Int
  y : Int
  z : Int
deriving DecidableEq, Repr

namespace Cell

/-- The cell as a tuple under the lexicographic order. -/
def toTuple (c : Cell) : Int ×ₗ Int ×ₗ Int := toLex (c.x, toLex (c.y, c.z))

theorem toTuple_injective : Function.Injective toTuple := by
  intro a b h
  have h' : (a.x, toLex (a.y, a.z)) = (b.x, toLex (b.y, b.z)) := toLex.injective h
  simp only [Prod.mk.injEq, EmbeddingLike.apply_eq_iff_eq] at h'
  exact Cell.ext h'.1 h'.2.1 h'.2.2

instance : LinearOrder Cell := LinearOrder.lift' toTuple toTuple_injective

instance : Add Cell := ⟨fun a b => ⟨a.x + b.x, a.y + b.y, a.z + b.z⟩⟩

instance : Sub Cell := ⟨fun a b => ⟨a.x - b.x, a.y - b.y, a.z - b.z⟩⟩

@[simp] theorem add_x (a b : Cell) : (a + b).x = a.x + b.x := rfl
@[simp] theorem add_y (a b : Cell) : (a + b).y = a.y + b.y := rfl
@[simp] theorem add_z (a b : Cell) : (a + b).z = a.z + b.z := rfl
@[simp] theorem sub_x (a b : Cell) : (a - b).x = a.x - b.x := rfl
@[simp] theorem sub_y (a b : Cell) : (a - b).y = a.y - b.y := rfl
@[simp] theorem sub_z (a b : Cell) : (a - b).z = a.z - b.z := rfl

theorem add_sub_self (a v : Cell) : a + v - a = v := by
  refine Cell.ext ?_ ?_ ?_
  · show a.x + v.x - a.x = v.x
    omega
  · show a.y + v.y - a.y = v.y
    omega
  · show a.z + v.z - a.z = v.z
    omega

theorem add_sub_of (a b : Cell) : a + (b - a) = b := by
  refine Cell.ext ?_ ?_ ?_
  · show a.x + (b.x - a.x) = b.x
    omega
  · show a.y + (b.y - a.y) = b.y
    omega
  · show a.z + (b.z - a.z) = b.z
    omega

theorem sub_add_self (a v : Cell) : a - v + v = a := by
  refine Cell.ext ?_ ?_ ?_
  · show a.x - v.x + v.x = a.x
    omega
  · show a.y - v.y + v.y = a.y
    omega
  · show a.z - v.z + v.z = a.z
    omega

/-- The steps of length one go one cell along one axis. -/
theorem natAbs_eq_one_iff {v : Cell} :
    v.x.natAbs + v.y.natAbs + v.z.natAbs = 1 ↔
      v = ⟨1, 0, 0⟩ ∨ v = ⟨-1, 0, 0⟩ ∨ v = ⟨0, 1, 0⟩ ∨ v = ⟨0, -1, 0⟩ ∨ v = ⟨0, 0, 1⟩ ∨
        v = ⟨0, 0, -1⟩ := by
  have hone : ∀ n : Int, n.natAbs = 1 ↔ n = 1 ∨ n = -1 := fun n => by omega
  have hsplit : ∀ a b c : Nat, a + b + c = 1 ↔
      a = 1 ∧ b = 0 ∧ c = 0 ∨ a = 0 ∧ b = 1 ∧ c = 0 ∨ a = 0 ∧ b = 0 ∧ c = 1 := by omega
  rw [hsplit, hone, hone, hone, Int.natAbs_eq_zero, Int.natAbs_eq_zero, Int.natAbs_eq_zero]
  simp only [Cell.ext_iff]
  constructor
  · intro h
    rcases h with ⟨hx | hx, hy, hz⟩ | ⟨hx, hy | hy, hz⟩ | ⟨hx, hy, hz | hz⟩
    · exact Or.inl ⟨hx, hy, hz⟩
    · exact Or.inr (Or.inl ⟨hx, hy, hz⟩)
    · exact Or.inr (Or.inr (Or.inl ⟨hx, hy, hz⟩))
    · exact Or.inr (Or.inr (Or.inr (Or.inl ⟨hx, hy, hz⟩)))
    · exact Or.inr (Or.inr (Or.inr (Or.inr (Or.inl ⟨hx, hy, hz⟩))))
    · exact Or.inr (Or.inr (Or.inr (Or.inr (Or.inr ⟨hx, hy, hz⟩))))
  · intro h
    rcases h with ⟨hx, hy, hz⟩ | ⟨hx, hy, hz⟩ | ⟨hx, hy, hz⟩ | ⟨hx, hy, hz⟩ | ⟨hx, hy, hz⟩ |
      ⟨hx, hy, hz⟩
    · exact Or.inl ⟨Or.inl hx, hy, hz⟩
    · exact Or.inl ⟨Or.inr hx, hy, hz⟩
    · exact Or.inr (Or.inl ⟨hx, Or.inl hy, hz⟩)
    · exact Or.inr (Or.inl ⟨hx, Or.inr hy, hz⟩)
    · exact Or.inr (Or.inr ⟨hx, hy, Or.inl hz⟩)
    · exact Or.inr (Or.inr ⟨hx, hy, Or.inr hz⟩)

end Cell

/-- A `frozenset`, with the order in which a run iterates it. -/
structure FrozenSet (α : Type*) where
  elems : List α
  nodup : elems.Nodup

namespace FrozenSet

variable {α : Type*}

instance : Membership α (FrozenSet α) := ⟨fun s a => a ∈ s.elems⟩

instance [DecidableEq α] (a : α) (s : FrozenSet α) : Decidable (a ∈ s) :=
  inferInstanceAs (Decidable (a ∈ s.elems))

theorem mem_elems {a : α} {s : FrozenSet α} : a ∈ s.elems ↔ a ∈ s := Iff.rfl

end FrozenSet

end TraxMania.Grid
