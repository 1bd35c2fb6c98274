import Mathlib.Algebra.BigOperators.Fin
import Mathlib.LinearAlgebra.Matrix.DotProduct
import Mathlib.LinearAlgebra.Matrix.ToLinearEquiv
import Mathlib.Tactic.LinearCombination

/-
  Weighted least squares with a ridge, over any ordered field. The loss is a parabola along every
  line, with the derivative `slope` and the second half derivative `curvature`; a positive ridge
  makes the curvature positive, so a stationary point is the only minimiser, and the normal
  equations, which say that a point is stationary, have exactly one solution.

  Nothing here is about a program in particular.
-/

namespace Lib.LeastSquares

open Matrix

variable {ι K : Type*} [Fintype ι] [Field K]

/-- An observation: its features, its target and its weight. -/
structure Observation (ι K : Type*) where
  x : ι → K
  y : K
  s : K

section Loss

variable (α : K) (data : List (Observation ι K))

/-- The weighted squares and the ridge. -/
def loss (w : ι → K) : K :=
  (data.map fun o => o.s * (o.x ⬝ᵥ w - o.y) ^ 2).sum + α * (w ⬝ᵥ w)

/-- Half the derivative of the loss at `w` along `v`. -/
def slope (w v : ι → K) : K :=
  (data.map fun o => o.s * ((o.x ⬝ᵥ w - o.y) * (o.x ⬝ᵥ v))).sum + α * (w ⬝ᵥ v)

/-- The bilinear form of the squares and the ridge. -/
def form (w v : ι → K) : K :=
  (data.map fun o => o.s * ((o.x ⬝ᵥ w) * (o.x ⬝ᵥ v))).sum + α * (w ⬝ᵥ v)

/-- The loss does not change to first order at `w`. -/
def Stationary (w : ι → K) : Prop := ∀ v, slope α data w v = 0

/-- The matrix of the normal equations. -/
def normalMatrix [DecidableEq ι] : Matrix ι ι K :=
  (data.map fun o => o.s • vecMulVec o.x o.x).sum + α • 1

/-- Their right side. -/
def normalRhs : ι → K := (data.map fun o => (o.s * o.y) • o.x).sum

end Loss

variable {α β : K} {data : List (Observation ι K)} {w v u : ι → K}

theorem loss_add : loss α data (w + v) =
    loss α data w + 2 * slope α data w v + form α data v v := by
  induction data with
  | nil =>
    simp only [loss, slope, form, List.map_nil, List.sum_nil, zero_add, add_dotProduct,
      dotProduct_add]
    rw [dotProduct_comm v w]
    ring
  | cons o data ih =>
    have hrest : ∀ c a b : K, c + a + b = c + (a + b) := fun c a b => add_assoc c a b
    simp only [loss, slope, form, List.map_cons, List.sum_cons] at ih ⊢
    rw [hrest, ih, dotProduct_add]
    ring

/-! ## The normal equations -/

section Normal

variable [DecidableEq ι]

theorem dotProduct_normalMatrix : v ⬝ᵥ normalMatrix α data *ᵥ w = form α data w v := by
  induction data with
  | nil =>
    simp only [normalMatrix, form, List.map_nil, List.sum_nil, zero_add, smul_mulVec,
      one_mulVec, dotProduct_smul, smul_eq_mul]
    rw [dotProduct_comm]
  | cons o data ih =>
    have hcons : normalMatrix α (o :: data) =
        o.s • vecMulVec o.x o.x + normalMatrix α data := by
      rw [normalMatrix, List.map_cons, List.sum_cons, add_assoc, normalMatrix]
    have hone : v ⬝ᵥ (o.s • vecMulVec o.x o.x) *ᵥ w =
        o.s * ((o.x ⬝ᵥ w) * (o.x ⬝ᵥ v)) := by
      rw [smul_mulVec, vecMulVec_mulVec, dotProduct_smul, op_smul_eq_smul, dotProduct_smul,
        smul_eq_mul, smul_eq_mul, dotProduct_comm v]
    rw [hcons, add_mulVec, dotProduct_add, ih, hone]
    simp only [form, List.map_cons, List.sum_cons]
    ring

omit [DecidableEq ι] in
theorem form_sub_dotProduct_normalRhs :
    form α data w v - v ⬝ᵥ normalRhs data = slope α data w v := by
  induction data with
  | nil => simp only [form, slope, normalRhs, List.map_nil, List.sum_nil, dotProduct_zero, sub_zero]
  | cons o data ih =>
    simp only [form, slope, normalRhs, List.map_cons, List.sum_cons] at ih ⊢
    rw [dotProduct_add, dotProduct_smul, smul_eq_mul, dotProduct_comm v]
    linear_combination ih

/-- A point is stationary exactly when it solves the normal equations. -/
theorem stationary_iff_normal [LinearOrder K] [IsStrictOrderedRing K] :
    Stationary α data w ↔ normalMatrix α data *ᵥ w = normalRhs data := by
  have hslope : ∀ v, v ⬝ᵥ (normalMatrix α data *ᵥ w - normalRhs data) = slope α data w v := by
    intro v
    rw [dotProduct_sub, dotProduct_normalMatrix, form_sub_dotProduct_normalRhs]
  constructor
  · intro h
    have hself := (hslope (normalMatrix α data *ᵥ w - normalRhs data)).trans (h _)
    exact sub_eq_zero.mp (dotProduct_self_eq_zero.mp hself)
  · intro h v
    rw [← hslope, h, sub_self, dotProduct_zero]

end Normal

/-! ## The only minimiser -/

section Order

variable [LinearOrder K] [IsStrictOrderedRing K]

/-- A positive ridge makes the form positive definite, whatever the features are. -/
theorem form_pos (hα : 0 < α) (hs : ∀ o ∈ data, 0 ≤ o.s) (hv : v ≠ 0) : 0 < form α data v v := by
  have hsquares : 0 ≤ (data.map fun o => o.s * ((o.x ⬝ᵥ v) * (o.x ⬝ᵥ v))).sum := by
    refine List.sum_nonneg fun a ha => ?_
    obtain ⟨o, ho, rfl⟩ := List.mem_map.mp ha
    exact mul_nonneg (hs o ho) (mul_self_nonneg _)
  have hridge : 0 < α * (v ⬝ᵥ v) := by
    refine mul_pos hα (lt_of_le_of_ne ?_ ?_)
    · exact Finset.sum_nonneg fun i _ => mul_self_nonneg (v i)
    · exact fun h => hv (dotProduct_self_eq_zero.mp h.symm)
  exact add_pos_of_nonneg_of_pos hsquares hridge

/-- The normal equations are not singular. -/
theorem det_normalMatrix_ne_zero [DecidableEq ι] (hα : 0 < α) (hs : ∀ o ∈ data, 0 ≤ o.s) :
    (normalMatrix α data).det ≠ 0 := by
  intro hdet
  obtain ⟨v, hv, hzero⟩ := exists_mulVec_eq_zero_iff.mpr hdet
  have hform : v ⬝ᵥ normalMatrix α data *ᵥ v = form α data v v := dotProduct_normalMatrix
  rw [hzero, dotProduct_zero] at hform
  exact ne_of_lt (form_pos hα hs hv) hform

/-- Everywhere else the loss is larger than at a stationary point. -/
theorem Stationary.loss_lt (h : Stationary α data w) (hα : 0 < α) (hs : ∀ o ∈ data, 0 ≤ o.s)
    (hne : u ≠ w) : loss α data w < loss α data u := by
  have hpos := form_pos hα hs (sub_ne_zero.mpr hne)
  have hadd : loss α data (w + (u - w)) =
      loss α data w + 2 * slope α data w (u - w) + form α data (u - w) (u - w) := loss_add
  rw [add_sub_cancel, h, mul_zero, add_zero] at hadd
  rw [hadd]
  linarith

theorem Stationary.loss_le (h : Stationary α data w) (hα : 0 < α) (hs : ∀ o ∈ data, 0 ≤ o.s)
    (u : ι → K) : loss α data w ≤ loss α data u := by
  by_cases hne : u = w
  · rw [hne]
  · exact le_of_lt (h.loss_lt hα hs hne)

theorem Stationary.unique (h : Stationary α data w) (hu : Stationary α data u) (hα : 0 < α)
    (hs : ∀ o ∈ data, 0 ≤ o.s) : u = w := by
  by_contra hne
  exact lt_asymm (h.loss_lt hα hs hne) (hu.loss_lt hα hs (Ne.symm hne))

/-- A larger ridge has a shorter minimiser. -/
theorem Stationary.norm_le (h : Stationary α data w) (hu : Stationary β data u) (hα : 0 < α)
    (hle : α ≤ β) (hs : ∀ o ∈ data, 0 ≤ o.s) : u ⬝ᵥ u ≤ w ⬝ᵥ w := by
  obtain hlt | rfl := lt_or_eq_of_le hle
  · -- each of the two is no better than the other one under its own ridge
    have hw := h.loss_le hα hs u
    have hu' := hu.loss_le (lt_of_lt_of_le hα hle) hs w
    simp only [loss] at hw hu'
    by_contra hgt
    have hprod : 0 < (β - α) * (u ⬝ᵥ u - w ⬝ᵥ w) :=
      mul_pos (sub_pos.mpr hlt) (sub_pos.mpr (not_le.mp hgt))
    linarith
  · rw [h.unique hu hα hs]

end Order

/-! ## Other data with the same stationary points -/

theorem slope_append (data more : List (Observation ι K)) :
    slope α (data ++ more) w v = slope α data w v + (slope α more w v - α * (w ⬝ᵥ v)) := by
  simp only [slope, List.map_append, List.sum_append]
  ring

/-- An observation of the weight `k` counts as `k` observations of the weight 1. -/
theorem slope_replicate (x : ι → K) (y : K) (k : ℕ) :
    slope α (List.replicate k ⟨x, y, 1⟩) w v = slope α [⟨x, y, (k : K)⟩] w v := by
  simp only [slope, List.map_replicate, List.sum_replicate, List.map_cons, List.map_nil,
    List.sum_cons, List.sum_nil, add_zero, one_mul, nsmul_eq_mul]

/-- A feature that is 0 throughout. -/
theorem slope_insertNth {d : ℕ} (j : Fin (d + 1)) {data : List (Observation (Fin (d + 1)) K)}
    (hzero : ∀ o ∈ data, o.x j = 0) (w : Fin d → K) (v : Fin (d + 1) → K) :
    slope α data (j.insertNth 0 w) v =
      slope α (data.map fun o => ⟨j.removeNth o.x, o.y, o.s⟩) w (j.removeNth v) := by
  have hdot : ∀ (x : Fin (d + 1) → K) (w : Fin d → K),
      x ⬝ᵥ (j.insertNth 0 w : Fin (d + 1) → K) = j.removeNth x ⬝ᵥ w := by
    intro x w
    simp only [dotProduct, Fin.sum_univ_succAbove _ j, Fin.insertNth_apply_same, mul_zero,
      zero_add, Fin.insertNth_apply_succAbove, Fin.removeNth]
  have hdot' : ∀ x v : Fin (d + 1) → K, x j = 0 → x ⬝ᵥ v = j.removeNth x ⬝ᵥ j.removeNth v := by
    intro x v hx
    simp only [dotProduct, Fin.sum_univ_succAbove _ j, hx, zero_mul, zero_add, Fin.removeNth]
  simp only [slope, List.map_map]
  congr 1
  · refine congrArg List.sum (List.map_congr_left fun o ho => ?_)
    simp only [Function.comp_apply]
    rw [hdot, hdot' o.x v (hzero o ho)]
  · rw [dotProduct_comm, hdot, dotProduct_comm]

end Lib.LeastSquares
