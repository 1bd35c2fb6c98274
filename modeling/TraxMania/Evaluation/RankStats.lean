import TraxMania.Lib.TieRanks

/-
  The statistics of scores that go by their order: `auc_roc` and `_rank_with_ties` of
  `corridor/ranking/model.py`, `separation_auc` and `_ranks` of `evaluation/dryrun/stats.py`, and
  `_percentile_ranks` of `coverage/replay_value.py`. Scores are exact here.
-/

namespace TraxMania.Evaluation

open Lib.Numpy Lib.SortBy Lib.TieRanks

variable {α : Type*} [LinearOrder α]

/-! ## Ranks with ties -/

/-- `_rank_with_ties(x)`. -/
def rankWithTies (np : Numpy α) (x : List α) : List ℚ := placedRanks np x

/-- `_ranks(x)`, inside `rank_correlation`. -/
def ranks (np : Numpy α) (x : List α) : List ℚ := placedRanks np x

/-- `_percentile_ranks(values)`. -/
def percentileRanks (values : List α) : List ℚ :=
  let n := values.length
  if n = 0 then []
  else
    let indexed := sortBy Prod.fst values.zipIdx
    let avg := fun i j : ℕ => (((i : ℚ) + 1) + ((j : ℚ) + 1)) / 2
    let ranks := rankRuns avg (indexed.map Prod.snd) (indexed.map Prod.fst) 0 (List.replicate n 0)
    ranks.map fun r => 100 * r / n

/-- The ranks that the percentiles come from. -/
def rescaled (percentiles : List ℚ) : List ℚ :=
  percentiles.map fun r => r * ((percentiles.length : ℚ) / 100)

theorem percentileRanks_eq (values : List α) :
    percentileRanks values = (averageRanks values).map fun r : ℚ => 100 * r / values.length := by
  unfold percentileRanks
  by_cases hempty : values.length = 0
  · rw [if_pos hempty, List.length_eq_zero_iff.mp hempty]
    rfl
  · have hranks := rankRuns_start (stableArgsort_sorts values) (fun i j => rfl)
      (List.length_replicate (n := values.length) (a := (0 : ℚ)))
    rw [takeAt_stableArgsort] at hranks
    rw [if_neg hempty]
    exact congrArg (List.map _) hranks

theorem rescaled_percentileRanks (values : List α) :
    rescaled (percentileRanks values) = averageRanks values := by
  have hlength : (averageRanks values).length = values.length := List.length_map _
  unfold rescaled
  rw [percentileRanks_eq, List.length_map, hlength, List.map_map]
  cases values with
  | nil => rfl
  | cons v values =>
    have hn : ((v :: values).length : ℚ) ≠ 0 := by
      exact_mod_cast Nat.succ_ne_zero values.length
    have hback : ((fun r : ℚ => r * (((v :: values).length : ℚ) / 100)) ∘
        fun r : ℚ => 100 * r / (v :: values).length) = id := by
      funext r
      change 100 * r / ((v :: values).length : ℚ) * (((v :: values).length : ℚ) / 100) = r
      field_simp
    rw [hback, List.map_id]

/-- The three rankings are one: average ranks, in every order of the values. -/
theorem tie_ranks_agree (np : Numpy α) :
    TieAware (rankWithTies np) ∧ TieAware (ranks np) ∧
      TieAware fun values : List α => rescaled (percentileRanks values) :=
  ⟨tieAware_of_eq (placedRanks_eq np), tieAware_of_eq (placedRanks_eq np),
    tieAware_of_eq rescaled_percentileRanks⟩

/-! ## `auc_roc` -/

/-- `scores[labels == label]`: a mask of another length is an `IndexError`. -/
def masked (scores : List α) (labels : List Int) (label : Int) : Option (List α) :=
  if scores.length = labels.length then
    some (((scores.zip labels).filter fun sl => sl.2 = label).map Prod.fst)
  else none

/-- `wins += np.sum(p > neg) + 0.5 * np.sum(p == neg)`. -/
def addWins (neg : List α) (wins : ℚ) (p : α) : ℚ :=
  wins + ((neg.countP fun n => n < p : ℕ) + 1 / 2 * (neg.countP fun n => n = p : ℕ))

/-- `auc_roc(scores, labels)`. -/
def aucRoc (scores : List α) (labels : List Int) : Option ℚ :=
  (masked scores labels 1).bind fun pos =>
    (masked scores labels 0).bind fun neg =>
      if pos.length = 0 ∨ neg.length = 0 then some (1 / 2)
      else some (pos.foldl (addWins neg) 0 / (pos.length * neg.length))

theorem foldl_addWins (pos neg : List α) (wins : ℚ) :
    pos.foldl (addWins neg) wins = wins + (won pos neg + (tied pos neg : ℚ) / 2) := by
  unfold won tied
  induction pos generalizing wins with
  | nil => rw [countPairs_nil, countPairs_nil]; simp
  | cons p pos ih =>
    rw [List.foldl_cons, ih, countPairs_cons, countPairs_cons, addWins]
    push_cast
    ring

/-- With scores of both classes, the pairs won and half of the pairs tied, of all pairs. -/
theorem aucRoc_eq {scores : List α} {labels : List Int} {pos neg : List α}
    (hpos : masked scores labels 1 = some pos) (hneg : masked scores labels 0 = some neg)
    (hp : pos ≠ []) (hn : neg ≠ []) :
    aucRoc scores labels =
      some ((won pos neg + (tied pos neg : ℚ) / 2) / (pos.length * neg.length)) := by
  have hboth : ¬ (pos.length = 0 ∨ neg.length = 0) := by
    rw [List.length_eq_zero_iff, List.length_eq_zero_iff]
    exact fun hor => hor.elim hp hn
  unfold aucRoc
  rw [hpos, hneg, Option.bind_some, Option.bind_some, if_neg hboth, foldl_addWins, zero_add]

omit [LinearOrder α] in
theorem filter_zip_replicate (scores : List α) (label wanted : Int) :
    ((scores.zip (List.replicate scores.length label)).filter fun sl => sl.2 = wanted).map Prod.fst =
      if label = wanted then scores else [] := by
  induction scores with
  | nil => rw [ite_self]; rfl
  | cons s scores ih =>
    rw [List.length_cons, List.replicate_succ, List.zip_cons_cons, List.filter_cons]
    by_cases h : label = wanted
    · rw [if_pos h] at ih ⊢
      rw [if_pos (by simpa using h), List.map_cons, ih]
    · rw [if_neg h] at ih ⊢
      rw [if_neg (by simpa using h), ih]

omit [LinearOrder α] in
/-- The scores in front have label 1, those behind label 0. -/
theorem masked_append (positives negatives : List α) (wanted : Int) :
    masked (positives ++ negatives)
      (List.replicate positives.length 1 ++ List.replicate negatives.length 0) wanted =
        some ((if 1 = wanted then positives else []) ++ if 0 = wanted then negatives else []) := by
  unfold masked
  rw [if_pos (by simp), List.zip_append (by simp), List.filter_append, List.map_append,
    filter_zip_replicate, filter_zip_replicate]

/-! ## `separation_auc` -/

/-- `separation_auc(positives, negatives)`. -/
def separationAuc (np : Numpy α) (positives negatives : List α) : Option ℚ :=
  if positives.length = 0 ∨ negatives.length = 0 then none
  else
    let combined := positives ++ negatives
    let order := stableArgsort combined
    let midrank := fun i j : ℕ => ((i : ℚ) + j) / 2 + 1
    let ranks := rankRuns midrank order (takeAt combined order) 0 (np.empty order.length)
    let rankSumP := (ranks.take positives.length).sum
    let u := rankSumP - (positives.length : ℚ) * (positives.length + 1) / 2
    some (u / (positives.length * negatives.length))

/-- The normalised rank sum counts pairs. -/
theorem separationAuc_eq (np : Numpy α) {positives negatives : List α} (hp : positives ≠ [])
    (hn : negatives ≠ []) :
    separationAuc np positives negatives =
      some ((won positives negatives + (tied positives negatives : ℚ) / 2) /
        (positives.length * negatives.length)) := by
  have hboth : ¬ (positives.length = 0 ∨ negatives.length = 0) := by
    rw [List.length_eq_zero_iff, List.length_eq_zero_iff]
    exact fun hor => hor.elim hp hn
  have hsorts := stableArgsort_sorts (positives ++ negatives)
  have hmid : ∀ i j : ℕ, ((i : ℚ) + j) / 2 + 1 = (((i : ℚ) + 1) + ((j : ℚ) + 1)) / 2 := by
    intro i j
    ring
  have hranks := rankRuns_start hsorts hmid ((np.length_empty _).trans hsorts.length_eq)
  have hsum := sum_averageRank_pooled positives negatives
  unfold separationAuc
  rw [if_neg hboth]
  simp only [hranks]
  rw [averageRanks, List.map_append, List.take_left' (List.length_map _), hsum, add_sub_cancel_right]

/-- The two areas are one statistic: pairs won and half of the pairs tied, of all pairs, however the
    labelled scores are arranged; the classes exchanged, the rest to one. -/
theorem separation_auc_is_auc_roc (np : Numpy α) (positives negatives : List α)
    (hp : positives ≠ []) (hn : negatives ≠ []) :
    separationAuc np positives negatives =
        some ((won positives negatives + (tied positives negatives : ℚ) / 2) /
          (positives.length * negatives.length)) ∧
      aucRoc (positives ++ negatives)
          (List.replicate positives.length 1 ++ List.replicate negatives.length 0) =
        separationAuc np positives negatives ∧
      (∀ scores labels pos neg, masked scores labels 1 = some pos →
        masked scores labels 0 = some neg → pos.Perm positives → neg.Perm negatives →
        aucRoc scores labels = separationAuc np positives negatives) ∧
      separationAuc np negatives positives =
        (separationAuc np positives negatives).map fun auc => 1 - auc := by
  have hpos : masked (positives ++ negatives)
      (List.replicate positives.length 1 ++ List.replicate negatives.length 0) 1 =
      some positives := by
    rw [masked_append, if_pos rfl, if_neg (by decide), List.append_nil]
  have hneg : masked (positives ++ negatives)
      (List.replicate positives.length 1 ++ List.replicate negatives.length 0) 0 =
      some negatives := by
    rw [masked_append, if_neg (by decide), if_pos rfl, List.nil_append]
  refine ⟨separationAuc_eq np hp hn, ?_, fun scores labels pos neg hpos hneg hpermp hpermn => ?_, ?_⟩
  · rw [separationAuc_eq np hp hn, aucRoc_eq hpos hneg hp hn]
  · have hwon : won pos neg = won positives negatives := countPairs_perm _ hpermp hpermn
    have htied : tied pos neg = tied positives negatives := countPairs_perm _ hpermp hpermn
    have hp' : pos ≠ [] := fun h => hp (h ▸ hpermp).nil_eq.symm
    have hn' : neg ≠ [] := fun h => hn (h ▸ hpermn).nil_eq.symm
    rw [separationAuc_eq np hp hn, aucRoc_eq hpos hneg hp' hn', hwon, htied, hpermp.length_eq,
      hpermn.length_eq]
  · have hpairs : (won positives negatives : ℚ) + tied positives negatives +
        won negatives positives = positives.length * negatives.length := by
      exact_mod_cast won_add_tied_add_won positives negatives
    have hp0 : (positives.length : ℚ) ≠ 0 := by
      exact_mod_cast fun h => hp (List.length_eq_zero_iff.mp h)
    have hn0 : (negatives.length : ℚ) ≠ 0 := by
      exact_mod_cast fun h => hn (List.length_eq_zero_iff.mp h)
    rw [separationAuc_eq np hp hn, separationAuc_eq np hn hp, tied_swap negatives, Option.map_some]
    congr 1
    field_simp
    linarith

theorem separation_auc_is_auc_roc_one_tie :
    separationAuc stableNumpy [(3 : ℚ), 1] [1, 2] = some (5 / 8) ∧
      aucRoc [(3 : ℚ), 1, 1, 2] [1, 1, 0, 0] = some (5 / 8) ∧
      separationAuc stableNumpy [(1 : ℚ), 2] [3, 1] = some (3 / 8) := by
  obtain ⟨hpairs, hroc, -, hswap⟩ := separation_auc_is_auc_roc stableNumpy [(3 : ℚ), 1] [1, 2]
    (List.cons_ne_nil _ _) (List.cons_ne_nil _ _)
  have hwon : won [(3 : ℚ), 1] [1, 2] = 2 := by decide +kernel
  have htied : tied [(3 : ℚ), 1] [1, 2] = 1 := by decide +kernel
  have hauc : separationAuc stableNumpy [(3 : ℚ), 1] [1, 2] = some (5 / 8) := by
    rw [hpairs, hwon, htied]
    norm_num
  refine ⟨hauc, hroc.trans hauc, hswap.trans ?_⟩
  rw [hauc, Option.map_some]
  norm_num

end TraxMania.Evaluation
