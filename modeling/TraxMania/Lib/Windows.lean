import Mathlib.Data.List.Chain

/-
  Lists that grow to both sides, and the windows of a list.

  Nothing here is about a program in particular.
-/

namespace Lib.Windows

variable {α : Type*}

/-! ## Grown to both sides -/

/-- Three entries in a row of a list that grew from `a` to both sides: they lie on one side, or
    around `a`. -/
theorem infix_reverse_append {x k y : α} (l : List α) (a : α) (r : List α) :
    [x, k, y] <:+: l.reverse ++ a :: r ↔
      [y, k, x] <:+: a :: l ∨ [x, k, y] <:+: a :: r ∨
        k = a ∧ l.head? = some x ∧ r.head? = some y := by
  have hprefix : ∀ (u v w b : α) (s : List α),
      [u, v, w] <+: b :: s ↔ u = b ∧ ∃ t, s = v :: w :: t := by
    intro u v w b s
    rw [List.cons_prefix_cons]
    refine and_congr_right' ⟨?_, ?_⟩
    · rintro ⟨t, rfl⟩
      exact ⟨t, rfl⟩
    · rintro ⟨t, rfl⟩
      exact ⟨t, rfl⟩
  have hshort : ∀ u v w b : α, ¬ [u, v, w] <:+: [b] := by
    intro u v w b h
    have := h.length_le
    simp at this
  induction l generalizing a r with
  | nil =>
    have hnone := hshort y k x a
    simp [hnone]
  | cons b l ih =>
    have hl : [y, k, x] <:+: a :: b :: l ↔ [y, k, x] <+: a :: b :: l ∨ [y, k, x] <:+: b :: l :=
      List.infix_cons_iff
    have hr : [x, k, y] <:+: b :: a :: r ↔ [x, k, y] <+: b :: a :: r ∨ [x, k, y] <:+: a :: r :=
      List.infix_cons_iff
    rw [List.reverse_cons, List.append_assoc, List.singleton_append]
    refine (ih b (a :: r)).trans ?_
    rw [hl, hr, hprefix, hprefix]
    simp only [List.head?_cons, Option.some.injEq, List.cons.injEq]
    constructor
    · rintro (h | (⟨rfl, t, rfl, rfl⟩ | h) | ⟨rfl, hx, rfl⟩)
      · exact Or.inl (Or.inr h)
      · exact Or.inr (Or.inr ⟨rfl, rfl, rfl⟩)
      · exact Or.inr (Or.inl h)
      · obtain ⟨t, rfl⟩ := List.head?_eq_some_iff.mp hx
        exact Or.inl (Or.inl ⟨rfl, t, rfl, rfl⟩)
    · rintro ((⟨rfl, t, rfl, rfl⟩ | h) | h | ⟨rfl, rfl, hy⟩)
      · exact Or.inr (Or.inr ⟨rfl, rfl, rfl⟩)
      · exact Or.inl h
      · exact Or.inr (Or.inl (Or.inr h))
      · obtain ⟨t, rfl⟩ := List.head?_eq_some_iff.mp hy
        exact Or.inr (Or.inl (Or.inl ⟨rfl, t, rfl, rfl⟩))

/-- Three entries in a row of a mapped list come from three in a row. -/
theorem three_infix_map {β : Type*} {f : α → β} {l : List α} {u v w : β}
    (h : [u, v, w] <:+: l.map f) :
    ∃ x k y, [x, k, y] <:+: l ∧ u = f x ∧ v = f k ∧ w = f y := by
  obtain ⟨l', hl', heq⟩ := List.infix_map_iff.mp h
  obtain ⟨x, l₁, rfl, hx, heq₁⟩ := List.map_eq_cons_iff.mp heq.symm
  obtain ⟨k, l₂, rfl, hk, heq₂⟩ := List.map_eq_cons_iff.mp heq₁
  obtain ⟨y, l₃, rfl, hy, heq₃⟩ := List.map_eq_cons_iff.mp heq₂
  obtain rfl := List.map_eq_nil_iff.mp heq₃
  exact ⟨x, k, y, hl', hx.symm, hk.symm, hy.symm⟩

/-- A list that grew to both sides keeps a symmetric relation between its neighbours. -/
theorem isChain_reverse_append {R : α → α → Prop} (hsymm : ∀ x y, R x y → R y x) {l r : List α}
    {a : α} (hl : (a :: l).IsChain R) (hr : (a :: r).IsChain R) :
    (l.reverse ++ a :: r).IsChain R := by
  have hback : (a :: l).IsChain fun x y => R y x := hl.imp fun _ _ => hsymm _ _
  have hleft : (l.reverse ++ [a]).IsChain R := by
    rw [← List.reverse_cons, List.isChain_reverse]
    exact hback
  cases r with
  | nil => exact hleft
  | cons b r => exact List.isChain_append_cons_cons.mpr ⟨hleft, (List.isChain_cons_cons.mp hr).1,
      (List.isChain_cons_cons.mp hr).2⟩

/-! ## Windows -/

/-- `xs[i: i + width]` for `i in range(0, len(xs) - least + 1)`, the long enough ones. -/
def windows (least width : Nat) (xs : List α) : List (List α) :=
  if least ≤ xs.length then
    (List.range (xs.length - least + 1)).filterMap fun i =>
      if least ≤ ((xs.drop i).take width).length then some ((xs.drop i).take width) else none
  else []

variable {least width : Nat} {xs : List α}

theorem mem_windows {w : List α} : w ∈ windows least width xs ↔
    least ≤ w.length ∧ ∃ i, i + least ≤ xs.length ∧ w = (xs.drop i).take width := by
  unfold windows
  by_cases hlen : least ≤ xs.length
  · rw [if_pos hlen, List.mem_filterMap]
    constructor
    · rintro ⟨i, hi, hw⟩
      rw [List.mem_range] at hi
      obtain ⟨hleast, hw⟩ := Option.ite_none_right_eq_some.mp hw
      obtain rfl := Option.some.inj hw
      exact ⟨hleast, i, by omega, rfl⟩
    · rintro ⟨hleast, i, hi, rfl⟩
      exact ⟨i, List.mem_range.mpr (by omega), if_pos hleast⟩
  · rw [if_neg hlen]
    constructor
    · intro h
      cases h
    · rintro ⟨-, i, hi, -⟩
      omega

theorem infix_of_mem_windows {w : List α} (h : w ∈ windows least width xs) : w <:+: xs := by
  obtain ⟨-, i, -, rfl⟩ := mem_windows.mp h
  exact (List.take_prefix _ _).isInfix.trans (List.drop_suffix _ _).isInfix

theorem length_of_mem_windows {w : List α} (h : w ∈ windows least width xs) :
    least ≤ w.length ∧ w.length ≤ width := by
  obtain ⟨hleast, i, -, rfl⟩ := mem_windows.mp h
  exact ⟨hleast, List.length_take_le _ _⟩

/-- A part of a list that fits into the width lies in a window. -/
theorem exists_window {ys : List α} (hys : ys <:+: xs) (hlen : least ≤ xs.length)
    (hwidth : least ≤ width) (hfit : ys.length ≤ width) :
    ∃ w ∈ windows least width xs, ys <:+: w := by
  obtain ⟨before, after, rfl⟩ := hys
  simp only [List.length_append] at hlen
  -- The window starts where the part does, or as late as a window may.
  obtain ⟨i, hi, hroom, hstart⟩ : ∃ i, i ≤ before.length ∧
      before.length - i + ys.length ≤ width ∧
      i + least ≤ before.length + ys.length + after.length := by
    by_cases h : before.length + least ≤ before.length + ys.length + after.length
    · exact ⟨before.length, le_refl _, by omega, h⟩
    · exact ⟨before.length + ys.length + after.length - least, by omega, by omega, by omega⟩
  have hwindow : ((before ++ ys ++ after).drop i).take width =
      before.drop i ++ ys ++ after.take (width - (before.length - i + ys.length)) := by
    rw [List.append_assoc, List.drop_append_of_le_length hi, ← List.append_assoc,
      List.take_append, List.take_of_length_le, List.length_append,
      List.length_drop]
    rw [List.length_append, List.length_drop]
    exact hroom
  refine ⟨_, mem_windows.mpr ⟨?_, i, ?_, rfl⟩, ?_⟩
  · simp only [List.length_take, List.length_drop, List.length_append]
    omega
  · simp only [List.length_append]
    exact hstart
  · rw [hwindow]
    exact ⟨before.drop i, _, rfl⟩

end Lib.Windows
