import Mathlib.Analysis.Real.Sqrt
import TraxMania.Lib.LeastSquares

/-
  `corridor/ranking/model.py`: the ridge regression of the corridor ranking, and what the sweep
  over alphas and the ablation of features in `diagnostics.py` do with it. numpy's solver and
  square root are parameters; what is asked of them is that they are exact.

  The system that `fit` solves is the normal equations of the weighted ridge loss, with the weights
  as square roots on the rows (`system_eq`).
-/

namespace TraxMania.Corridor.RidgeFit

open Matrix Lib.LeastSquares

variable {K : Type*} {d : ℕ}

/-! ## The source -/

/-- The functions of numpy that `fit` calls. -/
structure Numpy (K : Type*) where
  /-- `np.sqrt`. -/
  sqrt : K → K
  /-- `np.linalg.solve(a, b)`; an exception by its text. -/
  solve : {d : ℕ} → Matrix (Fin d) (Fin d) K → (Fin d → K) → Except String (Fin d → K)

variable [Field K]

/-- Roots of what is not negative are exact, and a system that is not singular is solved. -/
structure Numpy.Exact [LinearOrder K] (np : Numpy K) : Prop where
  sqrt : ∀ c : K, 0 ≤ c → np.sqrt c * np.sqrt c = c
  solve : ∀ {d : ℕ} (a : Matrix (Fin d) (Fin d) K) (b : Fin d → K), a.det ≠ 0 →
    ∃ w, np.solve a b = .ok w ∧ a *ᵥ w = b

/-- The rows of `X`. -/
abbrev Rows (d : ℕ) (K : Type*) := List (Fin d → K)

/-- `X.T @ X`. -/
def gram (X : Rows d K) : Matrix (Fin d) (Fin d) K := (X.map fun x => vecMulVec x x).sum

/-- `X.T @ y`. -/
def moments (X : Rows d K) (y : List K) : Fin d → K := (List.zipWith (fun x t => t • x) X y).sum

/-- `X * sqrt_w[:, None]`. -/
def scaleRows (X : Rows d K) (c : List K) : Rows d K := List.zipWith (fun x t => t • x) X c

/-- `XtX + reg` and `Xty` of `fit`. -/
def system (np : Numpy K) (alpha : K) (X : Rows d K) (y : List K)
    (sampleWeights : Option (List K)) : Matrix (Fin d) (Fin d) K × (Fin d → K) :=
  match sampleWeights with
  | none => (gram X + alpha • 1, moments X y)
  | some weights =>
    let sqrtW := weights.map np.sqrt
    let Xw := scaleRows X sqrtW
    let yw := List.zipWith (· * ·) y sqrtW
    (gram Xw + alpha • 1, moments Xw yw)

/-- `RidgeRegression(alpha).fit(X, y, sample_weights=…)`: the weights, or the text of the
exception. -/
def fit [LinearOrder K] (np : Numpy K) (alpha : K) (X : Rows d K) (y : List K)
    (sampleWeights : Option (List K)) : Except String (Fin d → K) :=
  if X.length ≠ y.length then
    .error ("X has " ++ toString X.length ++ " rows but y has " ++ toString y.length)
  else if d = 0 then .error "X has zero columns"
  else match sampleWeights with
    | none =>
      let s := system np alpha X y none
      np.solve s.1 s.2
    | some weights =>
      if weights.length ≠ X.length then
        .error ("sample_weights shape (" ++ toString weights.length ++ ",) doesn't match X rows " ++
          toString X.length)
      else if weights.any (· < 0) then .error "sample_weights must be non-negative"
      else
        let s := system np alpha X y (some weights)
        np.solve s.1 s.2

/-- The weights of the rows of `regularization_sweep`, one for each alpha, over its train split. -/
def regularizationSweep [LinearOrder K] (np : Numpy K) (alphas : List K) (X : Rows d K) (y : List K)
    (sampleWeights : Option (List K)) : Except String (List (Fin d → K)) :=
  alphas.mapM fun alpha => fit np alpha X y sampleWeights

/-- `X_ab[:, i] = 0.0` of `feature_ablation`. -/
def zeroColumn (i : Fin d) (X : Rows d K) : Rows d K := X.map fun x => Function.update x i 0

/-! ## The system -/

/-- The rows as weighted observations. -/
def observations (X : Rows d K) (y s : List K) : List (Observation (Fin d) K) :=
  List.zipWith (fun (x, t) c => ⟨x, t, c⟩) (X.zip y) s

/-- `sum of s_i (x_i . w - y_i)^2 + alpha |w|^2`. -/
def ridgeLoss (alpha : K) (X : Rows d K) (y s : List K) (w : Fin d → K) : K :=
  loss alpha (observations X y s) w

theorem weight_nonneg [LinearOrder K] {X : Rows d K} {y s : List K} (hs : ∀ c ∈ s, 0 ≤ c) :
    ∀ o ∈ observations X y s, 0 ≤ o.s := by
  intro o ho
  rw [observations, ← List.map_uncurry_zip_eq_zipWith] at ho
  obtain ⟨⟨xt, c⟩, hmem, rfl⟩ := List.mem_map.mp ho
  exact hs c (List.of_mem_zip hmem).2

omit [Field K] in
theorem zipWith_replicate {β γ : Type*} (f : β → K → γ) (xs : List β) (b : K) :
    List.zipWith f xs (List.replicate xs.length b) = xs.map fun x => f x b := by
  induction xs with
  | nil => rfl
  | cons x xs ih => exact congrArg (f x b :: ·) ih

/-- Rows scaled by `c` have the sums of rows of the weight `c * c`. -/
theorem sums_scaleRows {X : Rows d K} {y c : List K} (hy : y.length = X.length)
    (hc : c.length = X.length) :
    let data := observations X y (c.map fun t => t * t)
    gram (scaleRows X c) = (data.map fun o => o.s • vecMulVec o.x o.x).sum ∧
      moments (scaleRows X c) (List.zipWith (· * ·) y c) = normalRhs data := by
  induction X generalizing y c with
  | nil => exact ⟨rfl, rfl⟩
  | cons x X ih =>
    obtain ⟨t, y, rfl⟩ := List.exists_cons_of_length_eq_add_one hy
    obtain ⟨r, c, rfl⟩ := List.exists_cons_of_length_eq_add_one hc
    obtain ⟨hgram, hmoments⟩ := ih (Nat.succ.inj hy) (Nat.succ.inj hc)
    simp only [gram, moments, normalRhs, scaleRows, observations, List.map_cons,
      List.zipWith_cons_cons, List.zip_cons_cons, List.sum_cons] at hgram hmoments ⊢
    refine ⟨?_, ?_⟩
    · rw [hgram, smul_vecMulVec, vecMulVec_smul, smul_smul]
    · rw [hmoments, smul_smul, mul_assoc, mul_comm t]

/-- Rows scaled by the square roots of their weights have the weighted normal equations. -/
theorem system_some [LinearOrder K] {np : Numpy K} (hnp : np.Exact) (alpha : K) {X : Rows d K}
    {y s : List K} (hy : y.length = X.length) (hs : s.length = X.length) (hnonneg : ∀ c ∈ s, 0 ≤ c) :
    system np alpha X y (some s) =
      (normalMatrix alpha (observations X y s), normalRhs (observations X y s)) := by
  have hroots : (s.map np.sqrt).map (fun t => t * t) = s := by
    rw [List.map_map]
    exact (List.map_congr_left fun c hc => hnp.sqrt c (hnonneg c hc)).trans (List.map_id s)
  obtain ⟨hgram, hmoments⟩ := sums_scaleRows hy ((List.length_map _).trans hs)
  rw [hroots] at hgram hmoments
  simp only [system, hgram, hmoments, normalMatrix]

/-- Without weights the system is that of weights 1. -/
theorem system_none (np : Numpy K) (alpha : K) {X : Rows d K} {y s : List K}
    (hy : y.length = X.length) (hs : s.length = X.length) (hone : ∀ c ∈ s, c = 1) :
    system np alpha X y none =
      (normalMatrix alpha (observations X y s), normalRhs (observations X y s)) := by
  obtain rfl : s = List.replicate X.length 1 := List.eq_replicate_iff.mpr ⟨hs, hone⟩
  obtain ⟨hgram, hmoments⟩ := sums_scaleRows hy hs
  have hrows : scaleRows X (List.replicate X.length 1) = X := by
    rw [scaleRows, zipWith_replicate]
    exact (List.map_congr_left fun x _ => one_smul K x).trans (List.map_id X)
  have hy' : List.zipWith (· * ·) y (List.replicate X.length 1) = y := by
    rw [← hy, zipWith_replicate]
    exact (List.map_congr_left fun t _ => mul_one t).trans (List.map_id y)
  rw [hrows, hy', List.map_replicate, mul_one] at hmoments
  rw [hrows, List.map_replicate, mul_one] at hgram
  simp only [system, hgram, hmoments, normalMatrix]

/-! ## The fit -/

section Fit

variable [LinearOrder K]

/-- The weights that count, 1 for each row when there are none. -/
def rowWeights (X : Rows d K) (sampleWeights : Option (List K)) : List K :=
  sampleWeights.getD (List.replicate X.length 1)

/-- What `fit` accepts: as many targets as rows, and as many weights, none negative. -/
structure Accepted (X : Rows d K) (y : List K) (sampleWeights : Option (List K)) : Prop where
  targets : y.length = X.length
  weights : (rowWeights X sampleWeights).length = X.length
  nonneg : ∀ c ∈ rowWeights X sampleWeights, 0 ≤ c

variable {np : Numpy K} {alpha : K} {X : Rows d K} {y : List K} {sampleWeights : Option (List K)}

theorem system_eq (hnp : np.Exact) (h : Accepted X y sampleWeights) :
    let data := observations X y (rowWeights X sampleWeights)
    system np alpha X y sampleWeights = (normalMatrix alpha data, normalRhs data) := by
  cases sampleWeights with
  | none => exact system_none np alpha h.targets h.weights fun c hc => List.eq_of_mem_replicate hc
  | some s => exact system_some hnp alpha h.targets h.weights h.nonneg

theorem fit_eq_solve (hd : 0 < d) (h : Accepted X y sampleWeights) :
    fit np alpha X y sampleWeights =
      np.solve (system np alpha X y sampleWeights).1 (system np alpha X y sampleWeights).2 := by
  unfold fit
  rw [if_neg (not_not.mpr h.targets.symm), if_neg (by omega)]
  cases sampleWeights with
  | none => rfl
  | some s =>
    have hnone : ¬ s.any (· < 0) = true := by
      intro hany
      obtain ⟨c, hc, hneg⟩ := List.any_eq_true.mp hany
      exact absurd (h.nonneg c hc) (not_le.mpr (of_decide_eq_true hneg))
    have hlength : s.length = X.length := h.weights
    dsimp only
    rw [if_neg (not_not.mpr hlength), if_neg hnone]

/-- The fit is the stationary point of the loss, and the system it solves is not singular. -/
theorem fit_eq_ok_iff [IsStrictOrderedRing K] (hnp : np.Exact) (hd : 0 < d) (halpha : 0 < alpha)
    (h : Accepted X y sampleWeights) :
    (system np alpha X y sampleWeights).1.det ≠ 0 ∧
      (∃ w, fit np alpha X y sampleWeights = .ok w) ∧
      ∀ w, fit np alpha X y sampleWeights = .ok w ↔
        Stationary alpha (observations X y (rowWeights X sampleWeights)) w := by
  have hweights := weight_nonneg (X := X) (y := y) h.nonneg
  have hdet := det_normalMatrix_ne_zero halpha hweights
  obtain ⟨w, hw, hsolves⟩ := hnp.solve _ (normalRhs (observations X y
    (rowWeights X sampleWeights))) hdet
  rw [fit_eq_solve hd h, system_eq hnp h]
  refine ⟨hdet, ⟨w, hw⟩, fun u => ?_⟩
  have hstationary := stationary_iff_normal.mpr hsolves
  rw [hw, Except.ok.injEq]
  constructor
  · intro heq
    exact heq ▸ hstationary
  · intro hu
    exact (hstationary.unique hu halpha hweights).symm

end Fit

/-! ## Rows, weights and columns -/

section Rows

omit [Field K] in
theorem observations_append {X₁ X₂ : Rows d K} {y₁ y₂ s₁ s₂ : List K}
    (hy : X₁.length = y₁.length) (hs : X₁.length = s₁.length) :
    observations (X₁ ++ X₂) (y₁ ++ y₂) (s₁ ++ s₂) =
      observations X₁ y₁ s₁ ++ observations X₂ y₂ s₂ := by
  rw [observations, List.zip_append hy, List.zipWith_append]
  · rfl
  · rw [List.length_zip, ← hy, min_self, hs]

omit [Field K] in
theorem observations_replicate (x : Fin d → K) (t c : K) (k : ℕ) :
    observations (List.replicate k x) (List.replicate k t) (List.replicate k c) =
      List.replicate k ⟨x, t, c⟩ := by
  rw [observations, List.zip_replicate', List.zipWith_replicate']

/-- A row of the weight `k` has the slope of `k` copies of it. -/
theorem slope_copies {alpha : K} {X₁ X₂ : Rows d K} {y₁ y₂ s₁ s₂ : List K} {x : Fin d → K} {t : K}
    (hy : X₁.length = y₁.length) (hs : X₁.length = s₁.length) (k : ℕ) (w v : Fin d → K) :
    slope alpha (observations (X₁ ++ (List.replicate k x ++ X₂))
      (y₁ ++ (List.replicate k t ++ y₂)) (s₁ ++ (List.replicate k 1 ++ s₂))) w v =
      slope alpha (observations (X₁ ++ x :: X₂) (y₁ ++ t :: y₂) (s₁ ++ (k : K) :: s₂)) w v := by
  have hcons : observations (x :: X₂) (t :: y₂) ((k : K) :: s₂) =
      [⟨x, t, (k : K)⟩] ++ observations X₂ y₂ s₂ := rfl
  rw [observations_append hy hs, observations_append hy hs,
    observations_append (by simp) (by simp), observations_replicate, hcons, slope_append,
    slope_append, slope_append, slope_append, slope_replicate]

omit [Field K] in
/-- The observations without a feature. -/
theorem observations_removeNth {d : ℕ} (i : Fin (d + 1)) (X : Rows (d + 1) K) (y s : List K) :
    observations (X.map i.removeNth) y s =
      (observations X y s).map fun o => ⟨i.removeNth o.x, o.y, o.s⟩ := by
  rw [observations, observations, List.map_zipWith, List.zip_map_left, List.zipWith_map_left]
  rfl

theorem observations_zeroColumn {d : ℕ} (i : Fin (d + 1)) (X : Rows (d + 1) K) (y s : List K) :
    (∀ o ∈ observations (zeroColumn i X) y s, o.x i = 0) ∧
      (zeroColumn i X).map i.removeNth = X.map i.removeNth := by
  constructor
  · intro o ho
    rw [observations, ← List.map_uncurry_zip_eq_zipWith] at ho
    obtain ⟨⟨xt, c⟩, hmem, rfl⟩ := List.mem_map.mp ho
    obtain ⟨x, -, hx⟩ := List.mem_map.mp (List.of_mem_zip (List.of_mem_zip hmem).1).1
    show xt.1 i = 0
    rw [← hx, Function.update_self]
  · rw [zeroColumn, List.map_map]
    refine List.map_congr_left fun x _ => funext fun j => ?_
    exact Function.update_of_ne (Fin.succAbove_ne i j) 0 x

end Rows

/-! ## The weighted optimum -/

section Optimum

variable [LinearOrder K] [IsStrictOrderedRing K] {np : Numpy K} {alpha : K}
variable {X : Rows (d + 1) K} {y : List K} {sampleWeights : Option (List K)}

/-- What holds of the weights `w` that `fit` gives. -/
structure WeightedOptimum (np : Numpy K) (alpha : K) (X : Rows (d + 1) K) (y : List K)
    (sampleWeights : Option (List K)) (w : Fin (d + 1) → K) : Prop where
  nonsingular : (system np alpha X y sampleWeights).1.det ≠ 0
  minimiser : ∀ u, u ≠ w → ridgeLoss alpha X y (rowWeights X sampleWeights) w <
    ridgeLoss alpha X y (rowWeights X sampleWeights) u
  /-- `k` copies of weight 1 stand for a row of weight `k`, none of them for a row of weight 0. -/
  copies : ∀ (X₁ : Rows (d + 1) K) x X₂ y₁ t y₂ s₁ s₂ (k : ℕ), X₁.length = y₁.length →
    X₁.length = s₁.length → X = X₁ ++ x :: X₂ → y = y₁ ++ t :: y₂ →
    rowWeights X sampleWeights = s₁ ++ (k : K) :: s₂ →
    fit np alpha (X₁ ++ (List.replicate k x ++ X₂)) (y₁ ++ (List.replicate k t ++ y₂))
      (some (s₁ ++ (List.replicate k 1 ++ s₂))) = .ok w
  unit_weights : (∀ c ∈ rowWeights X sampleWeights, c = 1) → fit np alpha X y none = .ok w
  shrinks : ∀ beta u, alpha ≤ beta → fit np beta X y sampleWeights = .ok u → u ⬝ᵥ u ≤ w ⬝ᵥ w
  zeroed : ∀ i, ∃ u, fit np alpha (zeroColumn i X) y sampleWeights = .ok u ∧ u i = 0 ∧
    (0 < d → fit np alpha (X.map i.removeNth) y sampleWeights = .ok (i.removeNth u))

omit [IsStrictOrderedRing K] in
theorem Accepted.map_rows {d' : ℕ} (h : Accepted X y sampleWeights)
    (f : (Fin (d + 1) → K) → Fin d' → K) :
    rowWeights (X.map f) sampleWeights = rowWeights X sampleWeights ∧
      Accepted (X.map f) y sampleWeights := by
  have hweights : rowWeights (X.map f) sampleWeights = rowWeights X sampleWeights := by
    rw [rowWeights, List.length_map, rowWeights]
  refine ⟨hweights, ⟨?_, ?_, ?_⟩⟩
  · rw [List.length_map]
    exact h.targets
  · rw [hweights, List.length_map]
    exact h.weights
  · rw [hweights]
    exact h.nonneg

theorem fit_copies (hnp : np.Exact) (halpha : 0 < alpha) (h : Accepted X y sampleWeights)
    {w : Fin (d + 1) → K}
    (hw : Stationary alpha (observations X y (rowWeights X sampleWeights)) w)
    {X₁ X₂ : Rows (d + 1) K} {y₁ y₂ s₁ s₂ : List K} {x : Fin (d + 1) → K} {t : K} {k : ℕ}
    (hy : X₁.length = y₁.length) (hs : X₁.length = s₁.length) (hX : X = X₁ ++ x :: X₂)
    (hys : y = y₁ ++ t :: y₂) (hws : rowWeights X sampleWeights = s₁ ++ (k : K) :: s₂) :
    fit np alpha (X₁ ++ (List.replicate k x ++ X₂)) (y₁ ++ (List.replicate k t ++ y₂))
      (some (s₁ ++ (List.replicate k 1 ++ s₂))) = .ok w := by
  have htargets := h.targets
  have hlengths := h.weights
  have hnonneg := h.nonneg
  rw [hws] at hw hlengths hnonneg
  subst hX hys
  have haccepted : Accepted (X₁ ++ (List.replicate k x ++ X₂)) (y₁ ++ (List.replicate k t ++ y₂))
      (some (s₁ ++ (List.replicate k 1 ++ s₂))) := by
    simp only [List.length_append, List.length_cons] at htargets hlengths
    refine ⟨?_, ?_, fun c hc => ?_⟩
    · simp only [List.length_append, List.length_replicate]
      omega
    · simp only [rowWeights, Option.getD_some, List.length_append, List.length_replicate]
      omega
    · obtain hc | hc := List.mem_append.mp hc
      · exact hnonneg c (List.mem_append_left _ hc)
      · obtain hc | hc := List.mem_append.mp hc
        · rw [List.eq_of_mem_replicate hc]
          exact zero_le_one
        · exact hnonneg c (List.mem_append_right _ (List.mem_cons_of_mem _ hc))
  refine ((fit_eq_ok_iff hnp (Nat.succ_pos d) halpha haccepted).2.2 w).mpr fun v => ?_
  exact (slope_copies hy hs k w v).trans (hw v)

theorem fit_zeroColumn (hnp : np.Exact) (halpha : 0 < alpha) (h : Accepted X y sampleWeights)
    (i : Fin (d + 1)) :
    ∃ u, fit np alpha (zeroColumn i X) y sampleWeights = .ok u ∧ u i = 0 ∧
      (0 < d → fit np alpha (X.map i.removeNth) y sampleWeights = .ok (i.removeNth u)) := by
  obtain ⟨hweights, hzero⟩ := h.map_rows fun x => Function.update x i 0
  obtain ⟨hweights', hreduced⟩ := h.map_rows i.removeNth
  obtain ⟨hcolumn, hmap⟩ := observations_zeroColumn i X y (rowWeights X sampleWeights)
  have hnonneg := weight_nonneg (X := X.map i.removeNth) (y := y) h.nonneg
  -- the minimiser without the column, over no column at all if there was but one
  have hdet := det_normalMatrix_ne_zero halpha hnonneg
  obtain ⟨v, -, hsolves⟩ := hnp.solve _ (normalRhs (observations (X.map i.removeNth) y
    (rowWeights X sampleWeights))) hdet
  have hstationary := stationary_iff_normal.mpr hsolves
  have hinsert : Stationary alpha (observations (zeroColumn i X) y (rowWeights X sampleWeights))
      (i.insertNth 0 v : Fin (d + 1) → K) := by
    intro z
    rw [slope_insertNth i hcolumn, ← observations_removeNth, hmap]
    exact hstationary _
  refine ⟨i.insertNth 0 v, ?_, Fin.insertNth_apply_same (α := fun _ => K) i 0 v, fun hd => ?_⟩
  · refine ((fit_eq_ok_iff hnp (Nat.succ_pos d) halpha hzero).2.2 _).mpr ?_
    rw [hweights]
    exact hinsert
  · refine ((fit_eq_ok_iff hnp hd halpha hreduced).2.2 _).mpr ?_
    rw [hweights', Fin.removeNth_insertNth]
    exact hstationary

/-- The sweep fits at every alpha, and the weights get no longer when the alphas grow. -/
theorem regularizationSweep_norms (hnp : np.Exact) (h : Accepted X y sampleWeights)
    {alphas : List K} (hpos : ∀ a ∈ alphas, 0 < a) (hgrow : alphas.Pairwise (· ≤ ·)) :
    ∃ ws, regularizationSweep np alphas X y sampleWeights = .ok ws ∧
      List.Forall₂ (fun a w => fit np a X y sampleWeights = .ok w) alphas ws ∧
      ws.Pairwise fun w u => u ⬝ᵥ u ≤ w ⬝ᵥ w := by
  induction alphas with
  | nil => exact ⟨[], rfl, .nil, .nil⟩
  | cons a alphas ih =>
    obtain ⟨hle, hgrow⟩ := List.pairwise_cons.mp hgrow
    obtain ⟨ws, hws, hfits, hnorms⟩ := ih (fun b hb => hpos b (List.mem_cons_of_mem _ hb)) hgrow
    have ha := hpos a List.mem_cons_self
    obtain ⟨-, ⟨w, hw⟩, hiff⟩ := fit_eq_ok_iff hnp (Nat.succ_pos d) ha h
    refine ⟨w :: ws, ?_, .cons hw hfits, List.pairwise_cons.mpr ⟨fun u hu => ?_, hnorms⟩⟩
    · rw [regularizationSweep] at hws ⊢
      rw [List.mapM_cons, hw, hws]
      rfl
    · obtain ⟨b, hb, hu⟩ : ∃ b ∈ alphas, fit np b X y sampleWeights = .ok u := by
        obtain ⟨i, hi⟩ := List.mem_iff_getElem?.mp hu
        obtain ⟨hlt, rfl⟩ := List.getElem?_eq_some_iff.mp hi
        have hlt' : i < alphas.length := hfits.length_eq ▸ hlt
        exact ⟨alphas[i], List.getElem_mem hlt', hfits.get hlt' hlt⟩
      have hb0 := hpos b (List.mem_cons_of_mem _ hb)
      exact ((hiff w).mp hw).norm_le
        (((fit_eq_ok_iff hnp (Nat.succ_pos d) hb0 h).2.2 u).mp hu) ha (hle b hb)
        (weight_nonneg h.nonneg)

/-- `fit` gives the weighted optimum, for any features and any number of rows. -/
theorem fit_weightedOptimum (hnp : np.Exact) (halpha : 0 < alpha)
    (h : Accepted X y sampleWeights) :
    (∃ w, fit np alpha X y sampleWeights = .ok w ∧
      WeightedOptimum np alpha X y sampleWeights w) ∧
      ∀ alphas : List K, (∀ a ∈ alphas, 0 < a) → alphas.Pairwise (· ≤ ·) →
        ∃ ws, regularizationSweep np alphas X y sampleWeights = .ok ws ∧
          ws.Pairwise fun w u => u ⬝ᵥ u ≤ w ⬝ᵥ w := by
  obtain ⟨hdet, ⟨w, hfit⟩, hiff⟩ := fit_eq_ok_iff hnp (Nat.succ_pos d) halpha h
  have hw := (hiff w).mp hfit
  have hnonneg := weight_nonneg (X := X) (y := y) h.nonneg
  refine ⟨⟨w, hfit, hdet, fun u hne => hw.loss_lt halpha hnonneg hne, ?_, fun hone => ?_, ?_,
    fit_zeroColumn hnp halpha h⟩, ?_⟩
  · intro X₁ x X₂ y₁ t y₂ s₁ s₂ k hy hs hX hys hws
    exact fit_copies hnp halpha h hw hy hs hX hys hws
  · have hunit : rowWeights X none = rowWeights X sampleWeights :=
      (List.eq_replicate_iff.mpr ⟨h.weights, hone⟩).symm
    have haccepted : Accepted X y none :=
      ⟨h.targets, hunit ▸ h.weights, hunit ▸ h.nonneg⟩
    refine ((fit_eq_ok_iff hnp (Nat.succ_pos d) halpha haccepted).2.2 w).mpr ?_
    rw [hunit]
    exact hw
  · intro beta u hle hu
    have hbeta : 0 < beta := lt_of_lt_of_le halpha hle
    exact hw.norm_le (((fit_eq_ok_iff hnp (Nat.succ_pos d) hbeta h).2.2 u).mp hu) halpha hle hnonneg
  · intro alphas hpos hgrow
    obtain ⟨ws, hws, -, hnorms⟩ := regularizationSweep_norms hnp h hpos hgrow
    exact ⟨ws, hws, hnorms⟩

end Optimum

/-! ## Exact reals -/

/-- numpy with exact roots and inverses. -/
noncomputable def realNumpy : Numpy ℝ where
  sqrt := Real.sqrt
  solve a b := if a.det = 0 then .error "Singular matrix" else .ok (a⁻¹ *ᵥ b)

theorem realNumpy_exact : realNumpy.Exact where
  sqrt _ hc := Real.mul_self_sqrt hc
  solve a b hdet := by
    refine ⟨a⁻¹ *ᵥ b, if_neg hdet, ?_⟩
    rw [mulVec_mulVec, mul_nonsing_inv a (isUnit_iff_ne_zero.mpr hdet), one_mulVec]

/-- Two rows, the second of which does not count. -/
theorem fit_weightedOptimum_twoRows :
    ∃ w, fit realNumpy 1 [![1, 0], ![1, 1]] [2, 3] (some [1, 0]) = .ok w ∧
      WeightedOptimum realNumpy 1 [![1, 0], ![1, 1]] [2, 3] (some [1, 0]) w := by
  have haccepted : Accepted [![1, 0], ![1, 1]] [2, 3] (some [(1 : ℝ), 0]) := by
    refine ⟨rfl, rfl, fun c hc => ?_⟩
    obtain rfl | hc := List.mem_cons.mp hc
    · exact zero_le_one
    · exact le_of_eq (List.mem_singleton.mp hc).symm
  exact (fit_weightedOptimum realNumpy_exact one_pos haccepted).1

end TraxMania.Corridor.RidgeFit
