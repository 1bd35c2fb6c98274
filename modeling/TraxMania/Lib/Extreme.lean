import Mathlib.Data.List.Forall2
import Mathlib.Order.MinMax

/-
  The largest and the smallest entry of a list as a loop finds them, from a start value, and the
  index of the first smallest entry.

  Nothing here is about a program in particular.
-/

namespace Lib.Extreme

variable {α : Type*} [LinearOrder α]

theorem le_foldl_max (xs : List α) (m : α) : m ≤ xs.foldl max m ∧ ∀ x ∈ xs, x ≤ xs.foldl max m := by
  induction xs generalizing m with
  | nil => exact ⟨le_refl m, fun _ h => absurd h List.not_mem_nil⟩
  | cons y xs ih =>
    obtain ⟨hm, hxs⟩ := ih (max m y)
    refine ⟨le_trans (le_max_left m y) hm, fun x hx => ?_⟩
    rcases List.mem_cons.mp hx with rfl | hx
    · exact le_trans (le_max_right m x) hm
    · exact hxs x hx

theorem foldl_max_le {xs : List α} {m b : α} (hm : m ≤ b) (hxs : ∀ x ∈ xs, x ≤ b) :
    xs.foldl max m ≤ b := by
  induction xs generalizing m with
  | nil => exact hm
  | cons y xs ih =>
    exact ih (max_le hm (hxs y List.mem_cons_self)) fun x hx => hxs x (List.mem_cons_of_mem _ hx)

theorem foldl_min_le (xs : List α) (m : α) : xs.foldl min m ≤ m ∧ ∀ x ∈ xs, xs.foldl min m ≤ x := by
  induction xs generalizing m with
  | nil => exact ⟨le_refl m, fun _ h => absurd h List.not_mem_nil⟩
  | cons y xs ih =>
    obtain ⟨hm, hxs⟩ := ih (min m y)
    refine ⟨le_trans hm (min_le_left m y), fun x hx => ?_⟩
    rcases List.mem_cons.mp hx with rfl | hx
    · exact le_trans hm (min_le_right m x)
    · exact hxs x hx

theorem le_foldl_min {xs : List α} {m b : α} (hm : b ≤ m) (hxs : ∀ x ∈ xs, b ≤ x) :
    b ≤ xs.foldl min m := by
  induction xs generalizing m with
  | nil => exact hm
  | cons y xs ih =>
    exact ih (le_min hm (hxs y List.mem_cons_self)) fun x hx => hxs x (List.mem_cons_of_mem _ hx)

theorem lt_foldl_min {xs : List α} {m b : α} (hm : b < m) (hxs : ∀ x ∈ xs, b < x) :
    b < xs.foldl min m := by
  induction xs generalizing m with
  | nil => exact hm
  | cons y xs ih =>
    exact ih (lt_min hm (hxs y List.mem_cons_self)) fun x hx => hxs x (List.mem_cons_of_mem _ hx)

theorem foldl_max_max (xs : List α) (a b : α) :
    xs.foldl max (max a b) = max a (xs.foldl max b) := by
  induction xs generalizing b with
  | nil => rfl
  | cons x xs ih => rw [List.foldl_cons, List.foldl_cons, max_assoc, ih]

/-- Larger entries have a larger minimum. -/
theorem foldl_min_mono {xs ys : List α} (h : List.Forall₂ (· ≤ ·) xs ys) {a b : α} (hab : a ≤ b) :
    xs.foldl min a ≤ ys.foldl min b := by
  induction h generalizing a b with
  | nil => exact hab
  | cons hxy _ ih => exact ih (min_le_min hab hxy)

/-! ## The smaller of two by a key -/

section MinBy

variable {β : Type*}

/-- `min((a, b), key=key)`. -/
def minBy (key : β → α) (a b : β) : β := if key b < key a then b else a

theorem minBy_eq_or (key : β → α) (a b : β) : minBy key a b = a ∨ minBy key a b = b := by
  unfold minBy
  split
  · exact Or.inr rfl
  · exact Or.inl rfl

/-- Under a key that tells the two apart their order does not matter. -/
theorem minBy_comm {key : β → α} (hkey : Function.Injective key) (a b : β) :
    minBy key a b = minBy key b a := by
  unfold minBy
  rcases lt_trichotomy (key a) (key b) with h | h | h
  · rw [if_neg (lt_asymm h), if_pos h]
  · rw [hkey h]
  · rw [if_pos h, if_neg (lt_asymm h)]

end MinBy

/-! ## Where the smallest entry is -/

/-- The loop of `argmin`: `least` is the smallest entry so far, at the index `best`. -/
def argminFrom (best : Nat) (least : α) (i : Nat) : List α → Nat
  | [] => best
  | x :: xs => if x < least then argminFrom i x (i + 1) xs else argminFrom best least (i + 1) xs

/-- The index of the first smallest entry; an empty list has none. -/
def argmin : List α → Option Nat
  | [] => none
  | x :: xs => some (argminFrom 0 x 1 xs)

/-- The entry `x` at the index `i` is the first smallest one. -/
structure FirstLeast (xs : List α) (i : Nat) (x : α) : Prop where
  at_index : xs[i]? = some x
  least : ∀ y ∈ xs, x ≤ y
  first : ∀ j, j < i → ∀ y, xs[j]? = some y → x < y

/-- One entry more: it takes over when it is smaller. -/
theorem FirstLeast.concat {xs : List α} {i : Nat} {x : α} (h : FirstLeast xs i x) (y : α) :
    if y < x then FirstLeast (xs ++ [y]) xs.length y else FirstLeast (xs ++ [y]) i x := by
  have hi : i < xs.length := (List.getElem?_eq_some_iff.mp h.at_index).1
  by_cases hlt : y < x
  · rw [if_pos hlt]
    refine ⟨List.getElem?_concat_length, fun z hz => ?_, fun j hj z hz => ?_⟩
    · rcases List.mem_append.mp hz with hz | hz
      · exact le_trans (le_of_lt hlt) (h.least z hz)
      · rw [List.mem_singleton.mp hz]
    · rw [List.getElem?_append_left hj] at hz
      exact lt_of_lt_of_le hlt (h.least z (List.mem_of_getElem? hz))
  · rw [if_neg hlt]
    refine ⟨by rw [List.getElem?_append_left hi, h.at_index], fun z hz => ?_, fun j hj z hz => ?_⟩
    · rcases List.mem_append.mp hz with hz | hz
      · exact h.least z hz
      · rw [List.mem_singleton.mp hz]
        exact le_of_not_gt hlt
    · rw [List.getElem?_append_left (by omega)] at hz
      exact h.first j hj z hz

theorem firstLeast_argminFrom (rest : List α) {xs : List α} {i : Nat} {x : α}
    (h : FirstLeast xs i x) :
    ∃ y, FirstLeast (xs ++ rest) (argminFrom i x xs.length rest) y := by
  induction rest generalizing xs i x with
  | nil => exact ⟨x, by rw [List.append_nil]; exact h⟩
  | cons y rest ih =>
    have hstep := h.concat y
    rw [argminFrom, List.append_cons xs y rest, ← List.length_concat (a := y),
      List.concat_eq_append]
    split at hstep
    · next hlt =>
      rw [if_pos hlt]
      exact ih hstep
    · next hlt =>
      rw [if_neg hlt]
      exact ih hstep

/-- `argmin` finds the first smallest entry. -/
theorem firstLeast_argmin (xs : List α) (hne : xs ≠ []) :
    ∃ i x, argmin xs = some i ∧ FirstLeast xs i x := by
  cases xs with
  | nil => exact absurd rfl hne
  | cons x rest =>
    have hsingle : FirstLeast [x] 0 x :=
      ⟨rfl, fun y hy => le_of_eq (List.mem_singleton.mp hy).symm, fun j hj => absurd hj (by omega)⟩
    obtain ⟨y, hy⟩ := firstLeast_argminFrom rest hsingle
    exact ⟨_, y, rfl, hy⟩

end Lib.Extreme
