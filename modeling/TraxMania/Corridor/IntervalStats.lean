import Mathlib.Algebra.Order.BigOperators.Group.List
import Mathlib.Algebra.Order.Floor.Ring
import Mathlib.Analysis.Real.Sqrt
import Mathlib.Data.List.GetD
import Mathlib.Tactic.Positivity
import TraxMania.Catalogue.Block
import TraxMania.Lib.Extreme
import TraxMania.Lib.SortBy

/-
  `corridor/ranking/time_envelope_labels_v2.py`: the gaps between the checkpoint times of a replay,
  and the statistics of a map over its gaps.

  `_extract_gaps` drops a gap that is not positive but measures the next one from the entry behind
  it. So the gaps add up to the first time and all rises after it (`add_sum_gapsFrom_iff`), which
  is the largest time only when no rise comes after a fall.
-/

namespace TraxMania.Corridor.IntervalStats

open Lib Lib.Extreme

variable {K : Type*} [Field K] [LinearOrder K]

/-! ## The statistics module -/

/-- `statistics.mean`. -/
def mean (values : List K) : K := values.sum / values.length

/-- `statistics.median`. -/
def median (values : List K) : K :=
  let s := SortBy.sortBy id values
  let n := values.length
  if n % 2 = 1 then s.getD (n / 2) 0 else (s.getD (n / 2 - 1) 0 + s.getD (n / 2) 0) / (2 : ℕ)

/-- `statistics.stdev`. -/
def stdev (sqrt : K → K) (values : List K) : K :=
  sqrt ((values.map fun x => (x - mean values) ^ 2).sum / (values.length - 1))

/-! ## The source -/

/-- `AggregationMethod`. -/
inductive AggregationMethod where
  | mean
  | median
  | trimmedMean
deriving DecidableEq

section Source

variable [FloorRing K]

/-- The middle of the sorted values, without `int(n * trimmed_q)` at each end. -/
def trimmed (values : List K) (trimmedQ : K) : List K :=
  let s := SortBy.sortBy id values
  let n := s.length
  let k := ⌊(n : K) * trimmedQ⌋.toNat
  if 2 * k < n then (s.take (n - k)).drop k else s

/-- `_aggregate(values, method, trimmed_q)`, with the texts of its `ValueError`s. -/
def aggregate (values : List K) (method : AggregationMethod) (trimmedQ : K) : Except String K :=
  if values = [] then .error "_aggregate requires non-empty values"
  else match method with
    | .mean => .ok (mean values)
    | .median => .ok (median values)
    | .trimmedMean =>
      if trimmedQ < 0 ∨ 1 / (2 : ℕ) ≤ trimmedQ then .error "trimmed_q must be in [0, 0.5)"
      else if trimmedQ = 0 then .ok (mean values)
      else .ok (mean (trimmed values trimmedQ))

end Source

/-- `_reject_outliers(values, sigma)`. -/
def rejectOutliers (sqrt : K → K) (values : List K) (sigma : Option K) : List K :=
  match sigma with
  | none => values
  | some sigma =>
    if values.length < 2 then values
    else if stdev sqrt values = 0 then values
    else values.filter fun v => decide (|v - mean values| ≤ sigma * stdev sqrt values)

/-- `MapIntervalStats`. -/
structure MapIntervalStats (K : Type*) where
  mapId : ℕ
  aggregatedIntervalMs : K
  intervalStdevMs : K
  replayCountUsed : ℕ
  coefficientOfVariation : K
  labelQualityWeight : K

/-- `compute_interval_stats(map_id, gaps, …)`. -/
def computeIntervalStats [FloorRing K] (sqrt : K → K) (mapId : ℕ) (gaps : List K)
    (method : AggregationMethod) (trimmedQ : K) (outlierSigma : Option K) :
    Except String (Option (MapIntervalStats K)) :=
  let accepted := rejectOutliers sqrt gaps outlierSigma
  if accepted = [] then .ok none
  else do
    let agg ← aggregate accepted method trimmedQ
    let dev := if 2 ≤ accepted.length then stdev sqrt accepted else 0
    let cv := if 0 < agg then dev / agg else 0
    let quality := if 0 ≤ cv then 1 / (1 + cv) else 1
    return some ⟨mapId, agg, dev, accepted.length, cv, quality⟩

/-- The loop of `_extract_gaps` behind the entry `previous`. -/
def gapsFrom (previous : K) : List K → List K
  | [] => []
  | t :: times =>
    let gap := t - previous
    if 0 < gap then gap :: gapsFrom t times else gapsFrom t times

/-- `_extract_gaps(times)`. -/
def extractGaps : List K → List K
  | first :: second :: times => first :: gapsFrom first (second :: times)
  | _ => []

/-- The entries behind `previous` whose gap the loop keeps. -/
def keptFrom (previous : K) : List K → List K
  | [] => []
  | t :: times => if 0 < t - previous then t :: keptFrom t times else keptFrom t times

/-- The entries that `_extract_gaps` keeps, the first one in any case. -/
def kept : List K → List K
  | [] => []
  | first :: times => first :: keptFrom first times

/-- The largest of some values. -/
def largest : List K → K
  | [] => 0
  | x :: values => values.foldl max x

/-- The smallest of some values. -/
def smallest : List K → K
  | [] => 0
  | x :: values => values.foldl min x

/-! ## The gaps -/

/-- No rise comes after a fall: the times do not fall up to some entry and do not rise from there
on. -/
def NoRiseAfterFall : List K → Prop
  | a :: b :: times =>
    if b < a then (b :: times).IsChain (· ≥ ·) else NoRiseAfterFall (b :: times)
  | _ => True

section Gaps

theorem gapsFrom_pos (previous : K) (times : List K) :
    ∀ gap ∈ gapsFrom previous times, 0 < gap := by
  induction times generalizing previous with
  | nil => exact fun _ h => absurd h List.not_mem_nil
  | cons t times ih =>
    intro gap hgap
    simp only [gapsFrom] at hgap
    split at hgap
    · rename_i hpos
      obtain rfl | hgap := List.mem_cons.mp hgap
      · exact hpos
      · exact ih t gap hgap
    · exact ih t gap hgap

variable [IsStrictOrderedRing K]

theorem gapsFrom_sum_nonneg (previous : K) (times : List K) : 0 ≤ (gapsFrom previous times).sum :=
  List.sum_nonneg fun gap hgap => le_of_lt (gapsFrom_pos previous times gap hgap)

/-- The gaps are none, and add up to nothing, exactly when the times do not rise. -/
theorem gapsFrom_sum_eq_zero_iff (previous : K) (times : List K) :
    (gapsFrom previous times).sum = 0 ↔ (previous :: times).IsChain (· ≥ ·) := by
  induction times generalizing previous with
  | nil => simp [gapsFrom]
  | cons t times ih =>
    rw [List.isChain_cons_cons, ← ih t, gapsFrom]
    by_cases hpos : 0 < t - previous
    · have hsum := gapsFrom_sum_nonneg t times
      rw [if_pos hpos, List.sum_cons]
      refine iff_of_false (ne_of_gt (by linarith)) fun h => ?_
      have hle := h.1
      linarith
    · rw [if_neg hpos]
      refine ⟨fun h => ⟨?_, h⟩, And.right⟩
      have hle := not_lt.mp hpos
      show t ≤ previous
      linarith

theorem largest_kept_le (previous : K) (times : List K) :
    (keptFrom previous times).foldl max previous ≤ previous + (gapsFrom previous times).sum := by
  induction times generalizing previous with
  | nil => simp [keptFrom, gapsFrom]
  | cons t times ih =>
    have hrest := ih t
    simp only [keptFrom, gapsFrom]
    by_cases hpos : 0 < t - previous
    · rw [if_pos hpos, if_pos hpos, List.foldl_cons, List.sum_cons,
        max_eq_right (le_of_lt (sub_pos.mp hpos))]
      linarith
    · have hle : t ≤ previous := sub_nonpos.mp (not_lt.mp hpos)
      have hsum := gapsFrom_sum_nonneg t times
      rw [if_neg hpos, if_neg hpos, ← max_eq_left hle, foldl_max_max, max_eq_left hle]
      exact max_le (by linarith) (by linarith)

/-- The gaps add up to the largest time kept exactly when no rise comes after a fall. -/
theorem add_sum_gapsFrom_iff (previous : K) (times : List K) :
    previous + (gapsFrom previous times).sum = (keptFrom previous times).foldl max previous ↔
      NoRiseAfterFall (previous :: times) := by
  induction times generalizing previous with
  | nil => simp [keptFrom, gapsFrom, NoRiseAfterFall]
  | cons t times ih =>
    have hsum := gapsFrom_sum_nonneg t times
    have hlargest := largest_kept_le t times
    simp only [keptFrom, gapsFrom, NoRiseAfterFall]
    by_cases hpos : 0 < t - previous
    · have hlt : previous < t := sub_pos.mp hpos
      rw [if_pos hpos, if_pos hpos, if_neg (not_lt.mpr (le_of_lt hlt)), ← ih t, List.foldl_cons,
        List.sum_cons, max_eq_right (le_of_lt hlt), ← add_assoc, add_sub_cancel]
    · have hle : t ≤ previous := sub_nonpos.mp (not_lt.mp hpos)
      rw [if_neg hpos, if_neg hpos, ← max_eq_left hle, foldl_max_max, max_eq_left hle]
      by_cases hfall : t < previous
      · -- what rises behind the fall is counted on top of `previous`
        rw [if_pos hfall, ← gapsFrom_sum_eq_zero_iff]
        constructor
        · intro heq
          rcases max_cases previous ((keptFrom t times).foldl max t) with hmax | hmax <;> linarith
        · intro hzero
          rw [hzero, add_zero] at hlargest
          rw [hzero, add_zero, max_eq_left (le_trans hlargest hle)]
      · have heq : previous = t := le_antisymm (not_lt.mp hfall) hle
        have hge : t ≤ (keptFrom t times).foldl max t := (le_foldl_max _ t).1
        rw [if_neg hfall, ← ih t, heq, max_eq_right hge]

end Gaps

/-! ## The statistics of positive gaps -/

section Statistics

variable {values : List K}

theorem smallest_le {x : K} (hx : x ∈ values) : smallest values ≤ x := by
  cases values with
  | nil => exact absurd hx List.not_mem_nil
  | cons y values =>
    obtain rfl | hx := List.mem_cons.mp hx
    · exact (foldl_min_le values _).1
    · exact (foldl_min_le values y).2 x hx

theorem le_largest {x : K} (hx : x ∈ values) : x ≤ largest values := by
  cases values with
  | nil => exact absurd hx List.not_mem_nil
  | cons y values =>
    obtain rfl | hx := List.mem_cons.mp hx
    · exact (le_foldl_max values _).1
    · exact (le_foldl_max values y).2 x hx

theorem smallest_pos (hne : values ≠ []) (h : ∀ x ∈ values, 0 < x) : 0 < smallest values := by
  cases values with
  | nil => exact absurd rfl hne
  | cons y values =>
    exact lt_foldl_min (h y List.mem_cons_self) fun x hx => h x (List.mem_cons_of_mem _ hx)

theorem trimmed_ne_nil [FloorRing K] (hne : values ≠ []) (q : K) : trimmed values q ≠ [] := by
  have hs : SortBy.sortBy id values ≠ [] := by
    rw [← List.length_pos_iff, (SortBy.sortBy_perm id values).length_eq]
    exact List.length_pos_of_ne_nil hne
  unfold trimmed
  dsimp only
  split
  · rw [← List.length_pos_iff, List.length_drop, List.length_take]
    omega
  · exact hs

theorem mem_of_mem_trimmed [FloorRing K] {q x : K} (hx : x ∈ trimmed values q) : x ∈ values := by
  rw [← SortBy.mem_sortBy id]
  unfold trimmed at hx
  dsimp only at hx
  split at hx
  · exact List.mem_of_mem_take (List.mem_of_mem_drop hx)
  · exact hx

variable [IsStrictOrderedRing K]

theorem length_pos_cast (hne : values ≠ []) : (0 : K) < values.length := by
  exact_mod_cast List.length_pos_of_ne_nil hne

/-- A mean lies between bounds of its values. -/
theorem mean_mem_Icc {lo hi : K} (hne : values ≠ []) (h : ∀ x ∈ values, x ∈ Set.Icc lo hi) :
    mean values ∈ Set.Icc lo hi := by
  have hn := length_pos_cast hne
  have hlow := List.card_nsmul_le_sum values lo fun x hx => (h x hx).1
  have hhigh := List.sum_le_card_nsmul values hi fun x hx => (h x hx).2
  rw [nsmul_eq_mul] at hlow hhigh
  constructor
  · rw [mean, le_div_iff₀ hn, mul_comm]
    exact hlow
  · rw [mean, div_le_iff₀ hn, mul_comm]
    exact hhigh

/-- A median lies between bounds of its values. -/
theorem median_mem_Icc {lo hi : K} (hne : values ≠ []) (h : ∀ x ∈ values, x ∈ Set.Icc lo hi) :
    median values ∈ Set.Icc lo hi := by
  have hn := List.length_pos_of_ne_nil hne
  have hget : ∀ i < values.length, (SortBy.sortBy id values).getD i 0 ∈ Set.Icc lo hi := by
    intro i hi'
    rw [← (SortBy.sortBy_perm id values).length_eq] at hi'
    rw [List.getD_eq_getElem _ _ hi']
    exact h _ ((SortBy.mem_sortBy id values _).mp (List.getElem_mem hi'))
  unfold median
  dsimp only
  split
  · exact hget _ (by omega)
  · have hleft := hget (values.length / 2 - 1) (by omega)
    have hright := hget (values.length / 2) (by omega)
    constructor
    · linarith [hleft.1, hright.1]
    · linarith [hleft.2, hright.2]

/-- The aggregate of some values lies between the smallest and the largest of them. -/
theorem aggregate_bounds [FloorRing K] (hne : values ≠ []) (method : AggregationMethod) {q : K}
    (h0 : 0 ≤ q) (hhalf : q < 1 / 2) : ∃ agg, aggregate values method q = .ok agg ∧
      smallest values ≤ agg ∧ agg ≤ largest values := by
  have hall : ∀ x ∈ values, x ∈ Set.Icc (smallest values) (largest values) :=
    fun x hx => ⟨smallest_le hx, le_largest hx⟩
  have hmean := mean_mem_Icc hne hall
  unfold aggregate
  rw [if_neg hne]
  cases method with
  | mean => exact ⟨_, rfl, hmean⟩
  | median => exact ⟨_, rfl, median_mem_Icc hne hall⟩
  | trimmedMean =>
    dsimp only
    rw [Nat.cast_ofNat, if_neg (not_or.mpr ⟨not_lt.mpr h0, not_le.mpr hhalf⟩)]
    split
    · exact ⟨_, rfl, hmean⟩
    · exact ⟨_, rfl, mean_mem_Icc (trimmed_ne_nil hne q) fun x hx => hall x (mem_of_mem_trimmed hx)⟩

/-- The square root is exact. -/
structure IsSqrt (sqrt : K → K) : Prop where
  nonneg : ∀ x, 0 ≤ x → 0 ≤ sqrt x
  eq_zero : ∀ x, 0 ≤ x → (sqrt x = 0 ↔ x = 0)

variable {sqrt : K → K}

theorem variance_nonneg (hlen : 2 ≤ values.length) :
    0 ≤ (values.map fun x => (x - mean values) ^ 2).sum / ((values.length : K) - 1) := by
  have hn : (2 : K) ≤ values.length := by exact_mod_cast hlen
  refine div_nonneg (List.sum_nonneg fun y hy => ?_) (by linarith)
  obtain ⟨x, -, rfl⟩ := List.mem_map.mp hy
  exact sq_nonneg _

/-- The deviation vanishes exactly when the values are all equal. -/
theorem stdev_eq_zero_iff (hsqrt : IsSqrt sqrt) (hlen : 2 ≤ values.length) :
    stdev sqrt values = 0 ↔ ∀ a ∈ values, ∀ b ∈ values, a = b := by
  have hn : (2 : K) ≤ values.length := by exact_mod_cast hlen
  have hn' : (values.length : K) - 1 ≠ 0 := by linarith
  rw [stdev, hsqrt.eq_zero _ (variance_nonneg hlen), div_eq_zero_iff, or_iff_left hn']
  have hsquares : ∀ y ∈ values.map fun x => (x - mean values) ^ 2, 0 ≤ y := by
    intro y hy
    obtain ⟨x, -, rfl⟩ := List.mem_map.mp hy
    exact sq_nonneg _
  constructor
  · intro hsum
    have hmean : ∀ x ∈ values, x = mean values := by
      intro x hx
      have hzero := le_antisymm (hsum ▸ List.single_le_sum hsquares _ (List.mem_map_of_mem hx))
        (sq_nonneg (x - mean values))
      exact sub_eq_zero.mp (pow_eq_zero_iff two_ne_zero |>.mp hzero)
    intro a ha b hb
    rw [hmean a ha, hmean b hb]
  · intro hequal
    refine List.sum_eq_zero fun y hy => ?_
    obtain ⟨x, hx, rfl⟩ := List.mem_map.mp hy
    have hne : values ≠ [] := List.ne_nil_of_mem hx
    have hmean : mean values ∈ Set.Icc x x :=
      mean_mem_Icc hne fun b hb => by rw [hequal b hb x hx]; exact Set.left_mem_Icc.mpr (le_refl x)
    rw [le_antisymm hmean.1 hmean.2, sub_self]
    exact zero_pow two_ne_zero

/-- What the statistics of a list of gaps should be. -/
def StatsLaw [FloorRing K] (sqrt : K → K) (mapId : ℕ) (gaps : List K) (method : AggregationMethod)
    (q : K) (sigma : Option K) : Prop :=
  let accepted := rejectOutliers sqrt gaps sigma
  if accepted = [] then computeIntervalStats sqrt mapId gaps method q sigma = .ok none
  else ∃ stats, computeIntervalStats sqrt mapId gaps method q sigma = .ok (some stats) ∧
    smallest accepted ≤ stats.aggregatedIntervalMs ∧
    stats.aggregatedIntervalMs ≤ largest accepted ∧
    0 < stats.labelQualityWeight ∧ stats.labelQualityWeight ≤ 1 ∧
    (stats.labelQualityWeight = 1 ↔ ∀ a ∈ accepted, ∀ b ∈ accepted, a = b)

omit [IsStrictOrderedRing K] in
theorem mem_of_mem_rejectOutliers {sigma : Option K} {x : K}
    (hx : x ∈ rejectOutliers sqrt values sigma) : x ∈ values := by
  unfold rejectOutliers at hx
  cases sigma with
  | none => exact hx
  | some sigma =>
    dsimp only at hx
    split_ifs at hx
    · exact hx
    · exact hx
    · exact (List.mem_filter.mp hx).1

/-- `1 / (1 + cv)` of a coefficient of variation. -/
theorem quality_bounds {cv : K} (hcv : 0 ≤ cv) :
    0 < 1 / (1 + cv) ∧ 1 / (1 + cv) ≤ 1 ∧ (1 / (1 + cv) = 1 ↔ cv = 0) := by
  have hpos : 0 < 1 + cv := by linarith
  refine ⟨one_div_pos.mpr hpos, (div_le_one hpos).mpr (by linarith), ?_⟩
  rw [div_eq_one_iff_eq (ne_of_gt hpos)]
  constructor
  · intro h
    linarith
  · intro h
    linarith

/-- The statistics of positive gaps. -/
theorem statsLaw_of_pos [FloorRing K] (hsqrt : IsSqrt sqrt) {gaps : List K}
    (hpos : ∀ gap ∈ gaps, 0 < gap) (mapId : ℕ) (method : AggregationMethod) {q : K} (h0 : 0 ≤ q)
    (hhalf : q < 1 / 2) (sigma : Option K) : StatsLaw sqrt mapId gaps method q sigma := by
  unfold StatsLaw computeIntervalStats
  dsimp only
  generalize haccepted : rejectOutliers sqrt gaps sigma = accepted
  split
  · rfl
  · rename_i hne
    obtain ⟨agg, hagg, hlow, hhigh⟩ := aggregate_bounds hne method h0 hhalf
    have haggpos : 0 < agg := by
      refine lt_of_lt_of_le (smallest_pos hne fun x hx => hpos x ?_) hlow
      rw [← haccepted] at hx
      exact mem_of_mem_rejectOutliers hx
    rw [hagg]
    refine ⟨_, rfl, hlow, hhigh, ?_⟩
    dsimp only
    rw [if_pos haggpos]
    generalize hdev : (if 2 ≤ accepted.length then stdev sqrt accepted else 0) = dev
    have hdev0 : 0 ≤ dev := by
      rw [← hdev]
      split
      · rename_i hlen
        exact hsqrt.nonneg _ (variance_nonneg hlen)
      · exact le_refl 0
    have hequal : dev = 0 ↔ ∀ a ∈ accepted, ∀ b ∈ accepted, a = b := by
      rw [← hdev]
      split
      · rename_i hlen
        exact stdev_eq_zero_iff hsqrt hlen
      · rename_i hlen
        -- a single gap
        obtain ⟨x, rfl⟩ := List.length_eq_one_iff.mp
          (show accepted.length = 1 by have := List.length_pos_of_ne_nil hne; omega)
        refine iff_of_true rfl fun a ha b hb => ?_
        rw [List.mem_singleton.mp ha, List.mem_singleton.mp hb]
    have hcv : 0 ≤ dev / agg := div_nonneg hdev0 (le_of_lt haggpos)
    obtain ⟨h1, h2, h3⟩ := quality_bounds hcv
    rw [if_pos hcv]
    refine ⟨h1, h2, h3.trans ?_⟩
    rw [div_eq_zero_iff, or_iff_left (ne_of_gt haggpos), hequal]

end Statistics

/-! ## The monotone run -/

theorem isSqrt_real : IsSqrt Real.sqrt :=
  ⟨fun x _ => Real.sqrt_nonneg x, fun _ hx => Real.sqrt_eq_zero hx⟩

/-- The gaps and the statistics are those of the monotone run exactly when the first time is
positive and no rise comes after a fall. -/
theorem monotone_run_iff (times : List ℝ) (hlen : 2 ≤ times.length) :
    ((∀ gap ∈ extractGaps times, 0 < gap) ∧ (extractGaps times).sum = largest (kept times) ∧
      ∀ mapId method q sigma, 0 ≤ q → q < 1 / 2 → (∀ s ∈ sigma, 0 < s) →
        StatsLaw Real.sqrt mapId (extractGaps times) method q sigma) ↔
      0 < times.headD 0 ∧ NoRiseAfterFall times := by
  obtain _ | ⟨first, _ | ⟨second, rest⟩⟩ := times
  · simp at hlen
  · simp at hlen
  · have hsum : (extractGaps (first :: second :: rest)).sum =
        first + (gapsFrom first (second :: rest)).sum := List.sum_cons
    have hiff := add_sum_gapsFrom_iff first (second :: rest)
    constructor
    · intro h
      exact ⟨h.1 first List.mem_cons_self, hiff.mp (hsum.symm.trans h.2.1)⟩
    · intro h
      have hpos : ∀ gap ∈ extractGaps (first :: second :: rest), 0 < gap := by
        intro gap hgap
        obtain rfl | hgap := List.mem_cons.mp hgap
        · exact h.1
        · exact gapsFrom_pos first _ gap hgap
      exact ⟨hpos, hsum.trans (hiff.mpr h.2), fun mapId method q sigma h0 hhalf _ =>
        statsLaw_of_pos isSqrt_real hpos mapId method h0 hhalf sigma⟩

/-- The entry 5 is dropped, and the gap to 20 is measured from it. -/
theorem dropped_entry_base : extractGaps [10, 5, 20] = [(10 : ℝ), 15] ∧
    (extractGaps [10, 5, 20]).sum ≠ largest (kept [(10 : ℝ), 5, 20]) := by
  have hgaps : extractGaps [10, 5, 20] = [(10 : ℝ), 15] := by norm_num [extractGaps, gapsFrom]
  refine ⟨hgaps, ?_⟩
  rw [hgaps]
  norm_num [kept, keptFrom, largest]

theorem monotone_run_iff_three :
    ((∀ gap ∈ extractGaps [(5000 : ℝ), 10000, 15000], 0 < gap) ∧
      (extractGaps [(5000 : ℝ), 10000, 15000]).sum = largest (kept [5000, 10000, 15000]) ∧
      ∀ mapId method q sigma, 0 ≤ q → q < 1 / 2 → (∀ s ∈ sigma, 0 < s) →
        StatsLaw Real.sqrt mapId (extractGaps [(5000 : ℝ), 10000, 15000]) method q sigma) ↔
      0 < [(5000 : ℝ), 10000, 15000].headD 0 ∧ NoRiseAfterFall [(5000 : ℝ), 10000, 15000] :=
  monotone_run_iff [5000, 10000, 15000] (by decide)

end TraxMania.Corridor.IntervalStats
