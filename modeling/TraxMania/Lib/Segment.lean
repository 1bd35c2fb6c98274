import Mathlib.Algebra.BigOperators.Group.Finset.Basic
import Mathlib.Algebra.Order.BigOperators.Group.Finset
import Mathlib.Algebra.Order.Field.Basic
import Mathlib.Algebra.Order.Group.Pointwise.Interval
import Mathlib.Tactic.Linarith
import Mathlib.Tactic.Ring

/-
  The nearest point of a segment. The squared distance from a point to the points of a segment is a
  parabola in the parameter, and the parameter of its vertex, clipped to the segment, is where it is
  least. A box is a product of segments, and a linear form over it is largest in the corner that
  each coefficient picks.

  Nothing here is about a program in particular.
-/

namespace Lib.Segment

variable {K : Type*} [Field K] [LinearOrder K]

/-- `clip(t, 0, 1)`. -/
def clip (t : K) : K := min (max t 0) 1

/-- The parameter of the vertex of `a - 2bt + ct²`, clipped; it is 0 when there is no vertex. -/
def nearest (b c : K) : K := clip (b / if c = 0 then 1 else c)

theorem clip_le_one (t : K) : clip t ≤ 1 := min_le_right _ _

variable [IsStrictOrderedRing K]

theorem clip_nonneg (t : K) : 0 ≤ clip t := le_min (le_max_right t 0) zero_le_one

/-- Between a parameter of the segment and the clipped vertex, the parabola falls to the vertex. -/
theorem slope_nonneg {b c t : K} (hc : 0 ≤ c) (hb : c = 0 → b = 0) (h0 : 0 ≤ t) (h1 : t ≤ 1) :
    0 ≤ (t - nearest b c) * (c * nearest b c - b) := by
  by_cases hzero : c = 0
  · rw [hb hzero, hzero, zero_mul, sub_zero, mul_zero]
  · have hpos : 0 < c := lt_of_le_of_ne hc (Ne.symm hzero)
    have hvertex : c * (b / c) = b := mul_div_cancel₀ b hzero
    unfold nearest clip
    rw [if_neg hzero]
    rcases le_total (b / c) 0 with hlow | hlow
    · -- the vertex lies before the segment
      rw [max_eq_right hlow, min_eq_left zero_le_one, mul_zero, sub_zero, zero_sub]
      have hb' : b ≤ 0 := by
        have hmul := mul_nonpos_of_nonneg_of_nonpos hc hlow
        rwa [hvertex] at hmul
      exact mul_nonneg h0 (neg_nonneg.mpr hb')
    · rw [max_eq_left hlow]
      rcases le_total (b / c) 1 with hhigh | hhigh
      · rw [min_eq_left hhigh, hvertex, sub_self, mul_zero]
      · -- the vertex lies behind the segment
        rw [min_eq_right hhigh, mul_one]
        have hcb : c ≤ b := by
          have hmul := mul_le_mul_of_nonneg_left hhigh hc
          rwa [hvertex, mul_one] at hmul
        exact mul_nonneg_of_nonpos_of_nonpos (sub_nonpos.mpr h1) (sub_nonpos.mpr hcb)

/-- The clipped vertex is the least point of the parabola on the segment. -/
theorem nearest_le {a b c t : K} (hc : 0 ≤ c) (hb : c = 0 → b = 0) (h0 : 0 ≤ t) (h1 : t ≤ 1) :
    a - 2 * b * nearest b c + c * nearest b c ^ 2 ≤ a - 2 * b * t + c * t ^ 2 := by
  have hslope := slope_nonneg hc hb h0 h1
  have hsquare : 0 ≤ c * (t - nearest b c) ^ 2 := mul_nonneg hc (sq_nonneg _)
  have hdiff : a - 2 * b * t + c * t ^ 2 - (a - 2 * b * nearest b c + c * nearest b c ^ 2) =
      2 * ((t - nearest b c) * (c * nearest b c - b)) + c * (t - nearest b c) ^ 2 := by ring
  linarith

/-! ## Linear forms over a box -/

/-- Over a segment a linear form is largest at one of its ends. -/
theorem mul_le_max {a b r x : K} (hx : x ∈ Set.uIcc a b) : r * x ≤ max (r * a) (r * b) := by
  have himage : r * x ∈ (fun y => r * y) '' Set.uIcc a b := ⟨x, hx, rfl⟩
  rw [Set.image_const_mul_uIcc] at himage
  exact himage.2

variable {ι : Type*} [Fintype ι]

/-- The corner of the box that the coefficients pick. -/
def topCorner (r lo hi : ι → K) (i : ι) : K := if r i * lo i ≤ r i * hi i then hi i else lo i

omit [IsStrictOrderedRing K] [Fintype ι] in
theorem topCorner_mem (r lo hi : ι → K) (i : ι) : topCorner r lo hi i ∈ Set.uIcc (lo i) (hi i) := by
  unfold topCorner
  split
  · exact Set.right_mem_uIcc
  · exact Set.left_mem_uIcc

omit [IsStrictOrderedRing K] [Fintype ι] in
theorem mul_topCorner (r lo hi : ι → K) (i : ι) :
    r i * topCorner r lo hi i = max (r i * lo i) (r i * hi i) := by
  unfold topCorner
  split
  · rename_i h
    rw [max_eq_right h]
  · rename_i h
    rw [max_eq_left (le_of_not_ge h)]

/-- A linear form stays below `t` on a box exactly when its largest corner does. -/
theorem forall_box_le_iff {r lo hi : ι → K} {t : K} :
    (∀ x : ι → K, (∀ i, x i ∈ Set.uIcc (lo i) (hi i)) → ∑ i, r i * x i ≤ t) ↔
      ∑ i, max (r i * lo i) (r i * hi i) ≤ t := by
  constructor
  · intro hall
    have hcorner := hall (topCorner r lo hi) (topCorner_mem r lo hi)
    rwa [Finset.sum_congr rfl fun i _ => mul_topCorner r lo hi i] at hcorner
  · intro hmax x hx
    exact le_trans (Finset.sum_le_sum fun i _ => mul_le_max (hx i)) hmax

/-- It stays within `h` of `o` exactly when its largest and its smallest corner do. -/
theorem forall_box_abs_le_iff {r lo hi : ι → K} {o h : K} :
    (∀ x : ι → K, (∀ i, x i ∈ Set.uIcc (lo i) (hi i)) → |∑ i, r i * x i - o| ≤ h) ↔
      ∑ i, max (r i * lo i) (r i * hi i) ≤ o + h ∧
        ∑ i, max (-r i * lo i) (-r i * hi i) ≤ h - o := by
  rw [← forall_box_le_iff, ← forall_box_le_iff]
  have hneg : ∀ x : ι → K, ∑ i, -r i * x i = -∑ i, r i * x i := by
    intro x
    rw [← Finset.sum_neg_distrib]
    exact Finset.sum_congr rfl fun i _ => neg_mul _ _
  constructor
  · intro hall
    refine ⟨fun x hx => ?_, fun x hx => ?_⟩
    · have := (abs_le.mp (hall x hx)).2
      linarith
    · have := (abs_le.mp (hall x hx)).1
      rw [hneg]
      linarith
  · intro hboth x hx
    have hhigh := hboth.1 x hx
    have hlow := hboth.2 x hx
    rw [hneg] at hlow
    exact abs_le.mpr ⟨by linarith, by linarith⟩

end Lib.Segment
