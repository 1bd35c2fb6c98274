import TraxMania.Lib.SortBy
import Mathlib.Algebra.Order.Field.Rat
import Mathlib.Data.Finset.Basic
import Mathlib.Data.Finset.Lattice.Basic

/-
  `replay/cohorts.py`: the cohorts of the finished replays of a map, by the rank of their finish
  times. The ranks of replays with one finish time come from the order of the input.
-/

namespace TraxMania.Replay

open Lib.SortBy

/-! ## Percentiles -/

/-- The floats of percentiles. A quotient of integers is correctly rounded, so that it does not
    fall where the numerator grows. -/
class Percent (σ : Type) extends LinearOrder σ where
  zero : σ
  one : σ
  /-- `i / n`. -/
  ratio : Nat → Nat → σ
  ratio_mono : ∀ {i j n : Nat}, 0 < n → i ≤ j → ratio i n ≤ ratio j n

instance percentRat : Percent ℚ where
  zero := 0
  one := 1
  ratio i n := i / n
  ratio_mono := by
    intro i j n hn hij
    exact div_le_div_of_nonneg_right (Nat.cast_le.mpr hij) (Nat.cast_nonneg n)

/-! ## Configurations -/

/-- `CohortAssignmentConfig`. -/
structure CohortAssignmentConfig (σ : Type) where
  intentLowerPct : σ
  intentUpperPct : σ
  performanceTopPct : σ
  robustnessLowerPct : σ
  robustnessUpperPct : σ
  /-- Below this, every finished replay gets every cohort. -/
  smallMapN : Int

/-- The defaults. -/
def defaultConfig : CohortAssignmentConfig ℚ where
  intentLowerPct := 1 / 5
  intentUpperPct := 4 / 5
  performanceTopPct := 1 / 10
  robustnessLowerPct := 1 / 20
  robustnessUpperPct := 19 / 20
  smallMapN := 3

/-- The `ValueError`s of the constructor. -/
inductive ConfigError (σ : Type) where
  | bandInvalid (name : String) (lo hi : σ)
  | performanceOutOfRange
  | smallMapTooSmall
deriving DecidableEq

/-- The message, where `repr` formats a float. -/
def ConfigError.text {σ : Type} (repr : σ → String) : ConfigError σ → String
  | .bandInvalid name lo hi =>
    name ++ " percentile band invalid: [" ++ repr lo ++ ", " ++ repr hi ++ "]"
  | .performanceOutOfRange => "performance_top_pct out of [0,1]"
  | .smallMapTooSmall => "small_map_n must be >= 1"

inductive ReplayCohort where
  | intent
  | performance
  | robustness
deriving DecidableEq

/-- `_ALL_COHORTS`. -/
def allCohorts : Finset ReplayCohort := {.intent, .performance, .robustness}

/-- `CohortAssignment`. -/
structure CohortAssignment where
  replayId : Int
  cohorts : Finset ReplayCohort
deriving DecidableEq

/-! ## Assignment -/

section Assignment

variable {σ : Type} [Percent σ]

/-- `not 0.0 <= lo <= hi <= 1.0` for one band. -/
def checkBand (name : String) (lo hi : σ) : Except (ConfigError σ) Unit :=
  if Percent.zero ≤ lo ∧ lo ≤ hi ∧ hi ≤ Percent.one then .ok () else .error (.bandInvalid name lo hi)

/-- `__post_init__`. -/
def CohortAssignmentConfig.postInit (cfg : CohortAssignmentConfig σ) :
    Except (ConfigError σ) Unit := do
  checkBand "intent" cfg.intentLowerPct cfg.intentUpperPct
  checkBand "robustness" cfg.robustnessLowerPct cfg.robustnessUpperPct
  if Percent.zero ≤ cfg.performanceTopPct ∧ cfg.performanceTopPct ≤ Percent.one then
    if cfg.smallMapN < 1 then .error .smallMapTooSmall else .ok ()
  else .error .performanceOutOfRange

/-- The constructor accepts the configuration. -/
def CohortAssignmentConfig.Accepted (cfg : CohortAssignmentConfig σ) : Prop :=
  cfg.postInit = .ok ()

instance decidableAccepted (cfg : CohortAssignmentConfig σ) : Decidable cfg.Accepted :=
  inferInstanceAs (Decidable (cfg.postInit = .ok ()))

/-- `cohorts` of the replay of rank `i` among `n`. -/
def cohortsAt (cfg : CohortAssignmentConfig σ) (n i : Nat) : Finset ReplayCohort :=
  let pct := Percent.ratio i (n - 1)
  let performance : Finset ReplayCohort :=
    if pct ≤ cfg.performanceTopPct then {.performance} else ∅
  let intent : Finset ReplayCohort :=
    if cfg.intentLowerPct ≤ pct ∧ pct ≤ cfg.intentUpperPct then {.intent} else ∅
  let robustness : Finset ReplayCohort :=
    if cfg.robustnessLowerPct ≤ pct ∧ pct ≤ cfg.robustnessUpperPct then {.robustness} else ∅
  performance ∪ intent ∪ robustness

inductive CohortError where
  | zeroDivision
deriving DecidableEq

/-- The turn of the loop at the replay of rank `i`. -/
def assignAt (cfg : CohortAssignmentConfig σ) (n : Nat) (ri : (Int × Int) × Nat) :
    Except CohortError CohortAssignment :=
  if n - 1 = 0 then .error .zeroDivision else .ok ⟨ri.1.1, cohortsAt cfg n ri.2⟩

/-- `assign_cohorts_for_map(finished_clean_replays, config)`, for rows `(replay_id,
    finish_time_ms)`. -/
def assignCohortsForMap (cfg : CohortAssignmentConfig σ) (replays : List (Int × Int)) :
    Except CohortError (List CohortAssignment) :=
  let n := replays.length
  if n = 0 then .ok []
  else if n < cfg.smallMapN then .ok (replays.map fun r => ⟨r.1, allCohorts⟩)
  else (sortBy Prod.snd replays).zipIdx.mapM (assignAt cfg n)

/-! ## What an assignment should be -/

/-- Total, and free of the order of its input: one assignment for each replay, the same in any
    order of the input, equal for equal finish times, and with a slower replay in the performance
    cohort every faster one is in it. -/
structure OrderFree (cfg : CohortAssignmentConfig σ) (replays : List (Int × Int)) : Prop where
  total : ∃ out, assignCohortsForMap cfg replays = .ok out ∧
    (out.map CohortAssignment.replayId).Perm (replays.map Prod.fst)
  permuted : ∀ out, assignCohortsForMap cfg replays = .ok out → ∀ replays' : List (Int × Int),
    replays'.Perm replays → ∃ out', assignCohortsForMap cfg replays' = .ok out' ∧ out'.Perm out
  ties : ∀ out, assignCohortsForMap cfg replays = .ok out → ∀ r ∈ replays, ∀ r' ∈ replays,
    r.2 = r'.2 → ∀ a ∈ out, ∀ a' ∈ out, a.replayId = r.1 → a'.replayId = r'.1 →
      a.cohorts = a'.cohorts
  performance : ∀ out, assignCohortsForMap cfg replays = .ok out → ∀ r ∈ replays, ∀ r' ∈ replays,
    r.2 < r'.2 → ∀ a ∈ out, ∀ a' ∈ out, a.replayId = r.1 → a'.replayId = r'.1 →
      ReplayCohort.performance ∈ a'.cohorts → ReplayCohort.performance ∈ a.cohorts

/-- How many replays are faster than `time`, and how many are not slower. -/
def faster (replays : List (Int × Int)) (time : Int) : Nat :=
  replays.countP fun r => decide (r.2 < time)
def notSlower (replays : List (Int × Int)) (time : Int) : Nat :=
  replays.countP fun r => decide (r.2 ≤ time)

/-- The ranks that the replays of one finish time take lie on one side of every percentile. -/
def TiesAgree (cfg : CohortAssignmentConfig σ) (replays : List (Int × Int)) : Prop :=
  ∀ r ∈ replays, ∀ i, faster replays r.2 ≤ i → i < notSlower replays r.2 →
    cohortsAt cfg replays.length i = cohortsAt cfg replays.length (faster replays r.2)

/-- No replay, or too few of them, or at least two whose ties agree. -/
def Assignable (cfg : CohortAssignmentConfig σ) (replays : List (Int × Int)) : Prop :=
  replays.length = 0 ∨ replays.length < cfg.smallMapN ∨
    2 ≤ replays.length ∧ TiesAgree cfg replays

/-- The cohorts of a finish time, where its ranks agree. -/
def cohortsOf (cfg : CohortAssignmentConfig σ) (replays : List (Int × Int)) (time : Int) :
    Finset ReplayCohort :=
  if replays.length < cfg.smallMapN then allCohorts
  else cohortsAt cfg replays.length (faster replays time)

variable {cfg : CohortAssignmentConfig σ} {replays replays' : List (Int × Int)}

/-! ## The loop -/

theorem mapM_assignAt {n : Nat} (hn : n - 1 ≠ 0) (rows : List ((Int × Int) × Nat)) :
    rows.mapM (assignAt cfg n) = .ok (rows.map fun ri => ⟨ri.1.1, cohortsAt cfg n ri.2⟩) := by
  induction rows with
  | nil => rfl
  | cons ri rows ih =>
    rw [List.mapM_cons, ih]
    unfold assignAt
    rw [if_neg hn]
    rfl

/-- The assignment by rank. -/
theorem assign_of_ranked (hn : 2 ≤ replays.length) (hsmall : ¬ (replays.length : Int) < cfg.smallMapN) :
    assignCohortsForMap cfg replays =
      .ok ((sortBy Prod.snd replays).zipIdx.map fun ri =>
        ⟨ri.1.1, cohortsAt cfg replays.length ri.2⟩) := by
  unfold assignCohortsForMap
  dsimp only
  rw [if_neg (by omega), if_neg hsmall, mapM_assignAt (by omega)]

/-- A single replay, and no configuration that exempts it. -/
theorem assign_single (hn : replays.length = 1) (hsmall : ¬ (replays.length : Int) < cfg.smallMapN) :
    assignCohortsForMap cfg replays = .error .zeroDivision := by
  obtain ⟨r, rfl⟩ := List.length_eq_one_iff.mp hn
  unfold assignCohortsForMap
  dsimp only
  rw [if_neg (by simp), if_neg hsmall]
  rfl

/-! ## Ranks -/

/-- The ranks of the replays of a finish time. -/
theorem time_eq_iff_rank {r : Int × Int} {i : Nat} (h : (sortBy Prod.snd replays)[i]? = some r)
    (time : Int) : r.2 = time ↔ faster replays time ≤ i ∧ i < notSlower replays time := by
  have hperm := sortBy_perm Prod.snd replays
  unfold faster notSlower
  rw [← hperm.countP_eq, ← hperm.countP_eq]
  exact key_eq_iff_rank (sortBy_pairwise Prod.snd replays) time h

theorem faster_lt_notSlower {r : Int × Int} (hr : r ∈ replays) :
    faster replays r.2 < notSlower replays r.2 := by
  obtain ⟨i, hi⟩ := List.mem_iff_getElem?.mp ((mem_sortBy Prod.snd replays r).mpr hr)
  have hrank := (time_eq_iff_rank hi r.2).mp rfl
  omega

/-- A later finish time has no fewer replays before it. -/
theorem faster_mono (replays : List (Int × Int)) {time time' : Int} (h : time ≤ time') :
    faster replays time ≤ faster replays time' := by
  refine List.countP_mono_left fun r _ hr => ?_
  rw [decide_eq_true_eq] at hr ⊢
  omega

theorem faster_perm (h : replays'.Perm replays) : faster replays' = faster replays := by
  funext time
  exact h.countP_eq _

theorem notSlower_perm (h : replays'.Perm replays) : notSlower replays' = notSlower replays := by
  funext time
  exact h.countP_eq _

theorem cohortsOf_perm (h : replays'.Perm replays) :
    cohortsOf cfg replays' = cohortsOf cfg replays := by
  funext time
  unfold cohortsOf
  rw [h.length_eq, faster_perm h]

theorem Assignable.perm (h : replays'.Perm replays) (hgood : Assignable cfg replays) :
    Assignable cfg replays' := by
  unfold Assignable TiesAgree at hgood ⊢
  rw [h.length_eq, faster_perm h, notSlower_perm h]
  rcases hgood with hgood | hgood | ⟨hn, hties⟩
  · exact .inl hgood
  · exact .inr (.inl hgood)
  · exact .inr (.inr ⟨hn, fun r hr => hties r (h.mem_iff.mp hr)⟩)

/-! ## The cohorts of a finish time -/

/-- The assignment of a replay by its finish time. -/
def byTime (cfg : CohortAssignmentConfig σ) (replays : List (Int × Int)) (r : Int × Int) :
    CohortAssignment :=
  ⟨r.1, cohortsOf cfg replays r.2⟩

/-- Where the ties agree, the cohorts come from the finish time alone. -/
theorem assign_perm_byTime (h : Assignable cfg replays) :
    ∃ out, assignCohortsForMap cfg replays = .ok out ∧
      out.Perm (replays.map (byTime cfg replays)) := by
  by_cases hzero : replays.length = 0
  · obtain rfl := List.length_eq_zero_iff.mp hzero
    exact ⟨[], rfl, List.Perm.refl _⟩
  by_cases hsmall : (replays.length : Int) < cfg.smallMapN
  · refine ⟨replays.map fun r => ⟨r.1, allCohorts⟩, ?_, ?_⟩
    · unfold assignCohortsForMap
      dsimp only
      rw [if_neg hzero, if_pos hsmall]
    · have hall : byTime cfg replays = fun r => ⟨r.1, allCohorts⟩ := by
        funext r
        unfold byTime cohortsOf
        rw [if_pos hsmall]
      rw [hall]
  · obtain ⟨hn, hties⟩ : 2 ≤ replays.length ∧ TiesAgree cfg replays := by
      rcases h with h | h | h
      · exact absurd h hzero
      · exact absurd h hsmall
      · exact h
    refine ⟨(sortBy Prod.snd replays).map (byTime cfg replays), ?_,
      (sortBy_perm Prod.snd replays).map _⟩
    have hloop : (sortBy Prod.snd replays).zipIdx.map
        (fun ri => (⟨ri.1.1, cohortsAt cfg replays.length ri.2⟩ : CohortAssignment)) =
        ((sortBy Prod.snd replays).zipIdx.map Prod.fst).map (byTime cfg replays) := by
      rw [List.map_map]
      refine List.map_congr_left fun ri hri => ?_
      have hat : (sortBy Prod.snd replays)[ri.2]? = some ri.1 :=
        List.mem_zipIdx_iff_getElem?.mp hri
      have hmem : ri.1 ∈ replays :=
        (mem_sortBy Prod.snd replays ri.1).mp (List.mem_of_getElem? hat)
      obtain ⟨hlow, hhigh⟩ := (time_eq_iff_rank hat ri.1.2).mp rfl
      show _ = byTime cfg replays ri.1
      unfold byTime cohortsOf
      rw [if_neg hsmall, hties ri.1 hmem ri.2 hlow hhigh]
    rw [assign_of_ranked hn hsmall, hloop, List.zipIdx_map_fst]

omit [Percent σ] in
theorem mem_ite_singleton {p : Prop} [Decidable p] {c c' : ReplayCohort} :
    c ∈ (if p then {c'} else ∅ : Finset ReplayCohort) ↔ p ∧ c = c' := by
  split
  · next h => simp [h]
  · next h => simp [h]

theorem performance_mem_cohortsAt (cfg : CohortAssignmentConfig σ) (n i : Nat) :
    ReplayCohort.performance ∈ cohortsAt cfg n i ↔
      Percent.ratio i (n - 1) ≤ cfg.performanceTopPct := by
  unfold cohortsAt
  simp only [Finset.mem_union, mem_ite_singleton, reduceCtorEq, and_false, and_true, or_false]

/-- A faster replay ranks no lower. -/
theorem performance_mono (hn : ¬ (replays.length : Int) < cfg.smallMapN → 2 ≤ replays.length)
    {time time' : Int} (hle : time ≤ time')
    (h : ReplayCohort.performance ∈ cohortsOf cfg replays time') :
    ReplayCohort.performance ∈ cohortsOf cfg replays time := by
  unfold cohortsOf at h ⊢
  split
  · decide
  · next hsmall =>
    rw [if_neg hsmall, performance_mem_cohortsAt] at h
    rw [performance_mem_cohortsAt]
    have htwo := hn hsmall
    exact le_trans (Percent.ratio_mono (by omega) (faster_mono replays hle)) h

/-! ## When assignment is total and order-free -/

/-- An assignment is that of its replay. -/
theorem eq_byTime {out : List CohortAssignment} (hids : (replays.map Prod.fst).Nodup)
    (hout : out.Perm (replays.map (byTime cfg replays))) {r : Int × Int} (hr : r ∈ replays)
    {a : CohortAssignment} (ha : a ∈ out) (hid : a.replayId = r.1) : a = byTime cfg replays r := by
  obtain ⟨r', hr', rfl⟩ := List.mem_map.mp (hout.mem_iff.mp ha)
  have heq : r' = r := List.inj_on_of_nodup_map hids hr' hr hid
  rw [heq]

theorem orderFree_of_assignable (hids : (replays.map Prod.fst).Nodup)
    (h : Assignable cfg replays) : OrderFree cfg replays := by
  obtain ⟨out, hok, hout⟩ := assign_perm_byTime h
  have hthe : ∀ out', assignCohortsForMap cfg replays = .ok out' → out' = out := fun out' hok' =>
    Except.ok.inj (hok'.symm.trans hok)
  refine ⟨⟨out, hok, ?_⟩, ?_, ?_, ?_⟩
  · have hmap := hout.map CohortAssignment.replayId
    rwa [List.map_map] at hmap
  · intro out' hok' replays' hperm
    obtain rfl := hthe out' hok'
    obtain ⟨out'', hok'', hout''⟩ := assign_perm_byTime (h.perm hperm)
    refine ⟨out'', hok'', hout''.trans ?_⟩
    have hsame : byTime cfg replays' = byTime cfg replays := by
      unfold byTime
      rw [cohortsOf_perm hperm]
    rw [hsame]
    exact (hperm.map _).trans hout.symm
  · intro out' hok' r hr r' hr' htime a ha a' ha' hid hid'
    obtain rfl := hthe out' hok'
    rw [eq_byTime hids hout hr ha hid, eq_byTime hids hout hr' ha' hid']
    unfold byTime
    rw [htime]
  · intro out' hok' r hr r' hr' htime a ha a' ha' hid hid' hperf
    obtain rfl := hthe out' hok'
    rw [eq_byTime hids hout hr' ha' hid'] at hperf
    rw [eq_byTime hids hout hr ha hid]
    refine performance_mono (fun hsmall => ?_) htime.le hperf
    rcases h with h | h | h
    · rw [List.length_eq_zero_iff.mp h] at hr
      cases hr
    · exact absurd h hsmall
    · exact h.1

theorem assignable_of_orderFree (h : OrderFree cfg replays) : Assignable cfg replays := by
  by_cases hzero : replays.length = 0
  · exact .inl hzero
  by_cases hsmall : (replays.length : Int) < cfg.smallMapN
  · exact .inr (.inl hsmall)
  have hn : 2 ≤ replays.length := by
    by_contra hlt
    obtain ⟨out, hok, -⟩ := h.total
    rw [assign_single (by omega) hsmall] at hok
    cases hok
  have hok := assign_of_ranked hn hsmall
  refine .inr (.inr ⟨hn, fun r hr i hlow hhigh => ?_⟩)
  -- two ranks of one finish time are ranks of two of its replays
  have hat : ∀ j, faster replays r.2 ≤ j → j < notSlower replays r.2 → ∃ r' ∈ replays,
      r'.2 = r.2 ∧ (⟨r'.1, cohortsAt cfg replays.length j⟩ : CohortAssignment) ∈
        (sortBy Prod.snd replays).zipIdx.map fun ri =>
          ⟨ri.1.1, cohortsAt cfg replays.length ri.2⟩ := by
    intro j hlow hhigh
    have hlength : j < (sortBy Prod.snd replays).length := by
      rw [(sortBy_perm Prod.snd replays).length_eq]
      exact lt_of_lt_of_le hhigh List.countP_le_length
    have hget := List.getElem?_eq_getElem hlength
    refine ⟨_, (mem_sortBy Prod.snd replays _).mp (List.getElem_mem hlength),
      (time_eq_iff_rank hget r.2).mpr ⟨hlow, hhigh⟩, ?_⟩
    exact List.mem_map.mpr ⟨(_, j), List.mem_zipIdx_iff_getElem?.mpr hget, rfl⟩
  obtain ⟨r1, hr1, htime1, hmem1⟩ := hat i hlow hhigh
  obtain ⟨r2, hr2, htime2, hmem2⟩ := hat _ le_rfl (faster_lt_notSlower hr)
  exact h.ties _ hok r1 hr1 r2 hr2 (htime1.trans htime2.symm) _ hmem1 _ hmem2 rfl rfl

/-- Assignment is total and order-free exactly when the map has no replay, or fewer than
    `small_map_n`, or at least two of which those with one finish time take ranks on one side of
    every percentile. -/
theorem orderFree_iff (cfg : CohortAssignmentConfig σ) (replays : List (Int × Int))
    (hids : (replays.map Prod.fst).Nodup) : OrderFree cfg replays ↔ Assignable cfg replays :=
  ⟨assignable_of_orderFree, orderFree_of_assignable hids⟩

end Assignment

/-- Two replays of one time, and a slower one, under the defaults. -/
def tiedReplays : List (Int × Int) := [(1, 30000), (2, 30000), (3, 31000)]

/-- The replay that comes first in the input is the fastest. -/
theorem ties_differ :
    ¬ ∀ cfg : CohortAssignmentConfig ℚ, cfg.Accepted → ∀ replays : List (Int × Int),
      (replays.map Prod.fst).Nodup → OrderFree cfg replays := by
  intro h
  have hfree := h defaultConfig (by decide +kernel) tiedReplays (by decide)
  have hok : assignCohortsForMap defaultConfig tiedReplays =
      .ok [⟨1, {.performance}⟩, ⟨2, {.intent, .robustness}⟩, ⟨3, ∅⟩] := by decide +kernel
  have hties := hfree.ties _ hok (1, 30000) (by decide) (2, 30000) (by decide) rfl
    ⟨1, {.performance}⟩ (by simp) ⟨2, {.intent, .robustness}⟩ (by simp) rfl rfl
  exact absurd hties (by decide)

/-- Three replays of different times keep their cohorts in any order. -/
theorem three_orderFree :
    OrderFree defaultConfig [(1, 30000), (2, 30500), (3, 31000)] ↔
      Assignable defaultConfig [(1, 30000), (2, 30500), (3, 31000)] :=
  orderFree_iff defaultConfig [(1, 30000), (2, 30500), (3, 31000)] (by decide)

/-- A configuration for maps of any size, which the constructor accepts. -/
example : ({ defaultConfig with smallMapN := 1 } : CohortAssignmentConfig ℚ).Accepted ∧
    assignCohortsForMap ({ defaultConfig with smallMapN := 1 } : CohortAssignmentConfig ℚ)
      [(1, 30000)] = .error .zeroDivision := by decide +kernel

end TraxMania.Replay
