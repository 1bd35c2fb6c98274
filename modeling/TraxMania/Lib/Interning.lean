import TraxMania.Lib.Dict
import Mathlib.Data.List.Infix

/-
  Values numbered in the order in which they first come up: a dictionary from a value to its
  number, and the list of the values by number. Numbering more values only appends, so a number
  once given keeps its value.

  Nothing here is about a program in particular.
-/

namespace Lib

/-- An entry of a list with one more at its end. -/
theorem getElem?_concat_eq_some {α : Type*} {xs : List α} {a b : α} {i : Nat} :
    (xs ++ [a])[i]? = some b ↔ xs[i]? = some b ∨ i = xs.length ∧ a = b := by
  by_cases hi : i < xs.length
  · rw [List.getElem?_append_left hi]
    constructor
    · exact Or.inl
    · intro h
      exact h.resolve_right fun hlast => by omega
  · have hnone : xs[i]? = none := List.getElem?_eq_none (by omega)
    rw [List.getElem?_append_right (by omega), hnone, List.getElem?_singleton]
    by_cases h : i = xs.length
    · simp [h]
    · have hsub : i - xs.length ≠ 0 := by omega
      simp [h, hsub]

/-- What a number stands for stays when the list grows. -/
theorem getElem?_of_prefix {α : Type*} {xs ys : List α} (h : xs <+: ys) {i : Nat} {a : α}
    (hi : xs[i]? = some a) : ys[i]? = some a := by
  obtain ⟨rest, rfl⟩ := h
  rw [List.getElem?_append_left (List.getElem?_eq_some_iff.mp hi).1]
  exact hi

variable {α : Type*} [DecidableEq α]

/-- The two directions of a numbering, each the inverse of the other. -/
structure Interning (α : Type*) [DecidableEq α] where
  ids : Dict α Nat
  values : List α
  agree : ∀ a i, ids.get? a = some i ↔ values[i]? = some a

namespace Interning

/-- Nothing is numbered. -/
def empty : Interning α where
  ids := Dict.empty
  values := []
  agree := fun _ _ => ⟨fun h => (nomatch h), fun h => (nomatch h)⟩

variable (t : Interning α)

theorem lt_of_get? {t : Interning α} {a : α} {i : Nat} (h : t.ids.get? a = some i) :
    i < t.values.length :=
  (List.getElem?_eq_some_iff.mp ((t.agree a i).mp h)).1

/-- A value without a number is not listed. -/
theorem notMem_of_get? {t : Interning α} {a : α} (h : t.ids.get? a = none) : a ∉ t.values := by
  intro hmem
  obtain ⟨i, hi⟩ := List.getElem?_of_mem hmem
  rw [(t.agree a i).mpr hi] at h
  cases h

theorem values_nodup : t.values.Nodup := by
  refine List.nodup_iff_injective_get.mpr fun i j h => Fin.ext ?_
  have hi : t.values[i.val]? = some (t.values.get i) := List.getElem?_eq_getElem i.isLt
  have hj : t.values[j.val]? = some (t.values.get i) := by
    rw [h]
    exact List.getElem?_eq_getElem j.isLt
  exact Option.some.inj (((t.agree _ _).mpr hi).symm.trans ((t.agree _ _).mpr hj))

/-- A new value gets the next number. -/
def push (a : α) (h : t.ids.get? a = none) : Interning α where
  ids := t.ids.upsert a fun _ => t.values.length
  values := t.values ++ [a]
  agree := by
    intro b i
    rw [Dict.get?_upsert]
    rw [getElem?_concat_eq_some]
    by_cases hb : b = a
    · subst hb
      rw [if_pos rfl]
      constructor
      · intro hi
        exact Or.inr ⟨(Option.some.inj hi).symm, rfl⟩
      · rintro (hold | ⟨hlast, -⟩)
        · rw [(t.agree b i).mpr hold] at h
          cases h
        · rw [hlast]
    · rw [if_neg hb, t.agree b i]
      constructor
      · exact Or.inl
      · intro hi
        exact hi.resolve_right fun hlast => hb hlast.2.symm

/-- `ids.get(a)`, or the next number for it. -/
def intern (a : α) : Interning α × Nat :=
  match h : t.ids.get? a with
  | some i => (t, i)
  | none => (t.push a h, t.values.length)

/-- Numbering a value appends at most that value. -/
theorem values_intern (a : α) : (t.intern a).1.values = t.values ∧ a ∈ t.values ∨
    (t.intern a).1.values = t.values ++ [a] ∧ a ∉ t.values := by
  unfold intern
  split
  · next i h => exact Or.inl ⟨rfl, List.mem_of_getElem? ((t.agree a i).mp h)⟩
  · next h => exact Or.inr ⟨rfl, notMem_of_get? h⟩

theorem prefix_intern (a : α) : t.values <+: (t.intern a).1.values := by
  rcases t.values_intern a with ⟨h, -⟩ | ⟨h, -⟩
  · rw [h]
  · rw [h]
    exact List.prefix_append _ _

theorem mem_values_intern {a b : α} : b ∈ (t.intern a).1.values ↔ b = a ∨ b ∈ t.values := by
  rcases t.values_intern a with ⟨h, ha⟩ | ⟨h, -⟩
  · rw [h]
    constructor
    · exact Or.inr
    · rintro (rfl | hb)
      · exact ha
      · exact hb
  · rw [h, List.mem_append, List.mem_singleton, or_comm]

/-- The number leads back to the value. -/
theorem getElem?_intern (a : α) : (t.intern a).1.values[(t.intern a).2]? = some a := by
  unfold intern
  split
  · next i h => exact (t.agree a i).mp h
  · exact List.getElem?_concat_length

end Interning

end Lib
