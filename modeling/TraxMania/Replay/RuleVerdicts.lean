import TraxMania.Replay.Rules

/-
  The verdict of the cleaning rules on a replay, over all its samples: it is rejected when it is
  broken in one of ten ways and clean when it is sound in every respect (`status_of_telemetry`),
  and neither depends on where the run is in the world nor on when its clock starts
  (`runRules_moved`).
-/

namespace TraxMania.Replay

open TraxMania.Generation TraxMania.Generation.Llm Lib Lib.Outcome

/-! ## Verdicts of many rules -/

/-- The rule returns; it rejects exactly when `broken`, and passes exactly when `sound`. -/
def Decides (result : Except String RuleResult) (broken sound : Prop) : Prop :=
  ∃ r, result = .ok r ∧ (r.severity = some .reject ↔ broken) ∧ (r.severity = none ↔ sound)

/-- The thresholds that `run_rules` hands to a rule. -/
def merged {τ : Type} (thresholds : Dict String Thresholds) (rule : Rule τ) : Thresholds :=
  match thresholds.get? rule.name with
  | some overrides => rule.defaultThresholds.merge overrides
  | none => rule.defaultThresholds

section Verdicts

variable {τ : Type} {t : τ} {thresholds : Dict String Thresholds}

theorem runRules_eq (rules : List (Rule τ)) (thresholds : Dict String Thresholds) (t : τ) :
    runRules rules thresholds t = rules.mapM fun rule => rule.evaluate t (merged thresholds rule) :=
  rfl

theorem mapM_eq_mapM {α β ε : Type} {f g : α → Except ε β} {xs : List α}
    (h : ∀ x ∈ xs, f x = g x) : xs.mapM f = xs.mapM g := by
  induction xs with
  | nil => rfl
  | cons x xs ih =>
    rw [List.mapM_cons, List.mapM_cons, h x List.mem_cons_self,
      ih fun y hy => h y (List.mem_cons_of_mem _ hy)]

theorem runRules_of_decides {rules : List (Rule τ)} {certs : List (Prop × Prop)}
    (h : List.Forall₂ (fun rule c => Decides (rule.evaluate t (merged thresholds rule)) c.1 c.2)
      rules certs) : ∃ results, runRules rules thresholds t = .ok results ∧
      List.Forall₂ (fun (r : RuleResult) c => (r.severity = some .reject ↔ c.1) ∧
        (r.severity = none ↔ c.2)) results certs := by
  induction h with
  | nil => exact ⟨[], rfl, .nil⟩
  | cons hone _ ih =>
    obtain ⟨r, hr, hseverity⟩ := hone
    obtain ⟨results, hresults, hall⟩ := ih
    refine ⟨r :: results, ?_, .cons hseverity hall⟩
    rw [runRules_eq] at hresults ⊢
    rw [List.mapM_cons, hr, hresults]
    rfl

theorem any_reject_iff {results : List RuleResult} {certs : List (Prop × Prop)}
    (h : List.Forall₂ (fun (r : RuleResult) c => (r.severity = some .reject ↔ c.1) ∧
      (r.severity = none ↔ c.2)) results certs) :
    (results.any fun r => decide (r.severity = some .reject)) = true ↔ ∃ c ∈ certs, c.1 := by
  induction h with
  | nil => simp
  | cons hone _ ih =>
    simp only [List.any_cons, Bool.or_eq_true, decide_eq_true_eq, ih, hone.1,
      List.exists_mem_cons_iff]

theorem all_pass_iff {results : List RuleResult} {certs : List (Prop × Prop)}
    (h : List.Forall₂ (fun (r : RuleResult) c => (r.severity = some .reject ↔ c.1) ∧
      (r.severity = none ↔ c.2)) results certs) :
    (∀ r ∈ results, r.severity = none) ↔ ∀ c ∈ certs, c.2 := by
  induction h with
  | nil => simp
  | cons hone _ ih => simp only [List.forall_mem_cons, ih, hone.2]

theorem status_of_forall₂ (py : SidecarPython) {results : List RuleResult}
    {certs : List (Prop × Prop)} (h : List.Forall₂ (fun (r : RuleResult) c =>
      (r.severity = some .reject ↔ c.1) ∧ (r.severity = none ↔ c.2)) results certs) :
    ((classify py results).status = .rejected ↔ ∃ c ∈ certs, c.1) ∧
      ((classify py results).status = .clean ↔ ∀ c ∈ certs, c.2) := by
  have hreject := any_reject_iff h
  have hpass := all_pass_iff h
  unfold classify
  dsimp only
  constructor
  · rw [← hreject]
    split_ifs with hany hwarn
    · exact iff_of_true rfl hany
    · exact iff_of_false (fun h => nomatch h) hany
    · exact iff_of_false (fun h => nomatch h) hany
  · rw [← hpass]
    split_ifs with hany hwarn
    · refine iff_of_false (fun h => nomatch h) fun hall => ?_
      obtain ⟨r, hr, hseverity⟩ := List.any_eq_true.mp hany
      rw [hall r hr] at hseverity
      exact absurd hseverity (by decide)
    · refine iff_of_false (fun h => nomatch h) fun hall => ?_
      obtain ⟨r, hr, hseverity⟩ := List.any_eq_true.mp hwarn
      rw [hall r hr] at hseverity
      exact absurd hseverity (by decide)
    · refine iff_of_true rfl fun r hr => ?_
      have hno : ∀ s, r.severity ≠ some s := by
        intro s hs
        cases s with
        | warn => exact hwarn (List.any_eq_true.mpr ⟨r, hr, decide_eq_true hs⟩)
        | reject => exact hany (List.any_eq_true.mpr ⟨r, hr, decide_eq_true hs⟩)
      exact Option.eq_none_iff_forall_ne_some.mpr hno

end Verdicts

/-! ## Telemetry -/

/-- The thresholds of the telemetry rules, as the rules read them. -/
structure Limits where
  minSamples : Int
  minDurationMs : Int
  maxGapFactor : JsonFloat
  hardGapMs : Int
  maxDeltaM : JsonFloat
  softDeltaM : JsonFloat
  maxSpeedMps : JsonFloat
  hardCapMps : JsonFloat
  maxSpikeCount : Int
  warnIdleMs : Int
  rejectIdleMs : Int
  minMotion : ℚ
  warnAtCount : Int
  rejectAtCount : Int
  minDistanceM : JsonFloat

variable {py : RigPython} {errorText : PyError → String} {root : ℚ → ℚ}
variable {thresholds : Dict String Thresholds} {l : Limits} {t : ReplayTelemetry}

/-- The limits are what the configuration and the defaults say, and they are in order. -/
structure Configured (py : RigPython) (errorText : PyError → String) (root : ℚ → ℚ)
    (thresholds : Dict String Thresholds) (l : Limits) : Prop where
  minSamples : thresholdInt py errorText (merged thresholds (incompleteRule py errorText))
    "min_samples" = .ok l.minSamples
  minDurationMs : thresholdInt py errorText (merged thresholds (incompleteRule py errorText))
    "min_duration_ms" = .ok l.minDurationMs
  maxGapFactor : thresholdFloat py errorText (merged thresholds (invalidTimingRule py errorText))
    "max_gap_factor" = .ok l.maxGapFactor
  hardGapMs : thresholdInt py errorText (merged thresholds (invalidTimingRule py errorText))
    "hard_gap_ms" = .ok l.hardGapMs
  maxDeltaM : thresholdFloat py errorText (merged thresholds (teleportRule py errorText root))
    "max_delta_m" = .ok l.maxDeltaM
  softDeltaM : thresholdFloat py errorText (merged thresholds (teleportRule py errorText root))
    "soft_delta_m" = .ok l.softDeltaM
  deltas : floatLt l.maxDeltaM l.softDeltaM = false
  maxSpeedMps : thresholdFloat py errorText
    (merged thresholds (outlierSpeedRule py errorText root)) "max_speed_mps" = .ok l.maxSpeedMps
  hardCapMps : thresholdFloat py errorText
    (merged thresholds (outlierSpeedRule py errorText root)) "hard_cap_mps" = .ok l.hardCapMps
  maxSpikeCount : thresholdInt py errorText
    (merged thresholds (outlierSpeedRule py errorText root)) "max_spike_count" =
      .ok l.maxSpikeCount
  speeds : floatLt l.hardCapMps l.maxSpeedMps = false
  warnIdleMs : thresholdInt py errorText (merged thresholds (zeroMotionRule py errorText))
    "warn_idle_ms" = .ok l.warnIdleMs
  rejectIdleMs : thresholdInt py errorText (merged thresholds (zeroMotionRule py errorText))
    "reject_idle_ms" = .ok l.rejectIdleMs
  minMotion : thresholdFloat py errorText (merged thresholds (zeroMotionRule py errorText))
    "min_motion_m_per_sample" = .ok (.finite l.minMotion)
  idles : l.warnIdleMs ≤ l.rejectIdleMs
  warnAtCount : thresholdInt py errorText (merged thresholds (restartRule py errorText))
    "warn_at_count" = .ok l.warnAtCount
  rejectAtCount : thresholdInt py errorText (merged thresholds (restartRule py errorText))
    "reject_at_count" = .ok l.rejectAtCount
  counts : l.warnAtCount ≤ l.rejectAtCount
  minDistanceM : thresholdFloat py errorText (merged thresholds (spectatorRule py errorText root))
    "min_total_distance_m" = .ok l.minDistanceM

/-- What the loader guarantees of a telemetry, and positions that are numbers. -/
structure WellFormed (t : ReplayTelemetry) : Prop where
  samples : t.samples ≠ []
  rate : 0 < t.sampleRateHz
  rateFits : t.sampleRateHz.natAbs < floatLimit
  rational : ∀ s ∈ t.samples, s.Rational

/-- From the first sample to the last. -/
def ReplayTelemetry.span (t : ReplayTelemetry) : Int :=
  (t.samples.getLast?.map SampleFrame.timeMs).getD 0 -
    (t.samples.head?.map SampleFrame.timeMs).getD 0

/-- The longest gap between two samples has the property; it is at least 0. -/
def WorstGap (samples : List SampleFrame) (p : Int → Prop) : Prop :=
  p 0 ∨ ∃ a b, Next samples a b ∧ p (b.timeMs - a.timeMs)

/-- The ways in which a run is unusable. -/
inductive Broken (root : ℚ → ℚ) (l : Limits) (t : ReplayTelemetry) : Prop where
  | fewSamples (h : (t.samples.length : Int) < l.minSamples)
  | short (hfinish : t.finishTimeMs = none) (h : t.span < l.minDurationMs)
  | backwards {a b : SampleFrame} (hnext : Next t.samples a b) (h : b.timeMs < a.timeMs)
  | gap (h : WorstGap t.samples fun gap => l.hardGapMs < gap)
  | teleport {a b : SampleFrame} (hnext : Next t.samples a b)
    (h : floatLe l.maxDeltaM (stepLength root a b) = true)
  | tooFast {s : SampleFrame} (hs : s ∈ t.samples)
    (h : floatLe l.hardCapMps (s.speedMps root) = true)
  | spikes (h : l.maxSpikeCount <
      t.samples.countP fun s => floatLt l.maxSpeedMps (s.speedMps root))
  | idle {d : Int} (hd : d ∈ idleTimes l.minMotion t.samples) (h : l.rejectIdleMs ≤ d)
  | restarts (h : l.rejectAtCount ≤ t.restartSampleIndices.length)
  | nowhere (h : floatLt (totalDistance root t.samples) l.minDistanceM = true)

/-- A run with nothing to complain about. -/
structure Sound (root : ℚ → ℚ) (l : Limits) (t : ReplayTelemetry) : Prop where
  samples : l.minSamples ≤ t.samples.length
  finished : t.finishTimeMs ≠ none
  forwards : ∀ a b, Next t.samples a b → a.timeMs ≤ b.timeMs
  noGap : ¬WorstGap t.samples fun gap => l.hardGapMs < gap
  noSoftGap : ¬WorstGap t.samples fun gap =>
    floatLt (floatScale (1000 / t.sampleRateHz) l.maxGapFactor) (.finite gap) = true
  steps : ∀ a b, Next t.samples a b → floatLe l.maxDeltaM (stepLength root a b) = false ∧
    floatLe l.softDeltaM (stepLength root a b) = false
  speeds : ∀ s ∈ t.samples, floatLe l.hardCapMps (s.speedMps root) = false ∧
    floatLt l.maxSpeedMps (s.speedMps root) = false
  spikes : 0 ≤ l.maxSpikeCount
  moving : ∀ d ∈ idleTimes l.minMotion t.samples, d < l.warnIdleMs
  restarts : (t.restartSampleIndices.length : Int) < l.warnAtCount
  distance : floatLt (totalDistance root t.samples) l.minDistanceM = false

/-! ### One rule after the other -/

theorem durationMs_eq (hne : t.samples ≠ []) : t.durationMs = .ok t.span := by
  obtain ⟨first, rest, hsamples⟩ := List.exists_cons_of_ne_nil hne
  unfold ReplayTelemetry.durationMs ReplayTelemetry.span
  rw [hsamples]
  dsimp only
  rw [List.getLast?_cons, List.head?_cons, ← List.getLastD_eq_getLast?]
  rfl

variable {thr : Thresholds}

theorem decides_ok {r : RuleResult} {broken sound : Prop}
    (hreject : r.severity = some .reject ↔ broken) (hpass : r.severity = none ↔ sound) :
    Decides (.ok r) broken sound :=
  ⟨r, rfl, hreject, hpass⟩

section Severities

variable {name version : String} {evidence : Entries} {broken sound : Prop}

theorem decides_reject (h : broken) (hnot : ¬sound) :
    Decides (.ok ⟨name, version, some .reject, evidence⟩) broken sound :=
  decides_ok (iff_of_true rfl h) (iff_of_false (fun h => nomatch h) hnot)

theorem decides_warn (hnot : ¬broken) (hnot' : ¬sound) :
    Decides (.ok ⟨name, version, some .warn, evidence⟩) broken sound :=
  decides_ok (iff_of_false (fun h => nomatch h) hnot) (iff_of_false (fun h => nomatch h) hnot')

theorem decides_pass (hnot : ¬broken) (h : sound) :
    Decides (.ok ⟨name, version, none, evidence⟩) broken sound :=
  decides_ok (iff_of_false (fun h => nomatch h) hnot) (iff_of_true rfl h)

end Severities

theorem incompleteRule_decides {minSamples minDurationMs : Int}
    (hsamples : thresholdInt py errorText thr "min_samples" = .ok minSamples)
    (hduration : thresholdInt py errorText thr "min_duration_ms" = .ok minDurationMs)
    (hne : t.samples ≠ []) : Decides ((incompleteRule py errorText).evaluate t thr)
      ((t.samples.length : Int) < minSamples ∨ t.finishTimeMs = none ∧ t.span < minDurationMs)
      (minSamples ≤ t.samples.length ∧ t.finishTimeMs ≠ none) := by
  unfold incompleteRule
  dsimp only
  rw [hsamples, hduration, durationMs_eq hne]
  simp only [ok_bind]
  split
  · rename_i hfew
    exact decides_reject (Or.inl hfew) fun h => (not_lt.mpr h.1) hfew
  · rename_i henough
    split
    · rename_i hfinish
      split
      · rename_i hshort
        exact decides_reject (Or.inr ⟨hfinish, hshort⟩) fun h => h.2 hfinish
      · rename_i hlong
        refine decides_warn ?_ fun h => h.2 hfinish
        rintro (h | h)
        · exact henough h
        · exact hlong h.2
    · rename_i finishTimeMs hfinish
      refine decides_pass ?_ ?_
      · rintro (h | h)
        · exact henough h
        · rw [hfinish] at h
          cases h.1
      · rw [hfinish]
        exact ⟨not_lt.mp henough, fun h => nomatch h⟩

theorem nominalMs_eq (hrate : 0 < t.sampleRateHz) (hfits : t.sampleRateHz.natAbs < floatLimit) :
    nominalMs errorText t.sampleRateHz = .ok (1000 / t.sampleRateHz) := by
  unfold nominalMs
  rw [if_neg (not_le.mpr hfits), if_neg (by omega)]

/-- The loop over the gaps. -/
theorem gapScan_spec (samples : List SampleFrame) :
    (0 ≤ ((stepsOf samples).foldl gapStep ⟨0, -1, -1⟩).backwardsIndex ↔
      ∃ a b, Next samples a b ∧ b.timeMs < a.timeMs) ∧
    ∀ p : Int → Prop, (∀ x y, p (max x y) ↔ p x ∨ p y) →
      (p ((stepsOf samples).foldl gapStep ⟨0, -1, -1⟩).worstGapMs ↔ WorstGap samples p) := by
  constructor
  · rw [backwardsIndex_foldl, foldl_first_nonneg
      (fun x : SampleFrame × SampleFrame => decide (x.2.timeMs - x.1.timeMs < 0))]
    simp only [decide_eq_true_eq]
    rw [exists_mem_stepsOf (p := fun x => x.2.timeMs - x.1.timeMs < 0)]
    simp only [sub_neg, Int.reduceNeg, Left.nonneg_neg_iff, Int.reduceLE, false_or]
  · intro p hmax
    rw [worstGapMs_foldl hmax, exists_mem_stepsOf (p := fun x => p (x.2.timeMs - x.1.timeMs))]
    rfl

theorem floatLt_max (bound : JsonFloat) (x y : Int) :
    floatLt bound (.finite (max x y : Int)) = true ↔
      floatLt bound (.finite x) = true ∨ floatLt bound (.finite y) = true := by
  cases bound with
  | finite b => simp only [floatLt, decide_eq_true_eq, Int.cast_max, lt_max_iff]
  | infinite negative => simp only [floatLt, or_self]
  | nan => simp only [floatLt, or_self]

theorem invalidTimingRule_decides {maxFactor : JsonFloat} {hardGapMs : Int}
    (hfactor : thresholdFloat py errorText thr "max_gap_factor" = .ok maxFactor)
    (hhard : thresholdInt py errorText thr "hard_gap_ms" = .ok hardGapMs)
    (hrate : 0 < t.sampleRateHz) (hfits : t.sampleRateHz.natAbs < floatLimit) :
    Decides ((invalidTimingRule py errorText).evaluate t thr)
      ((∃ a b, Next t.samples a b ∧ b.timeMs < a.timeMs) ∨
        WorstGap t.samples fun gap => hardGapMs < gap)
      ((¬∃ a b, Next t.samples a b ∧ b.timeMs < a.timeMs) ∧
        (¬WorstGap t.samples fun gap => hardGapMs < gap) ∧
        ¬WorstGap t.samples fun gap =>
          floatLt (floatScale (1000 / t.sampleRateHz) maxFactor) (.finite gap) = true) := by
  obtain ⟨hback, hgap⟩ := gapScan_spec t.samples
  rw [← hback, ← hgap (fun gap => hardGapMs < gap) fun x y => lt_max_iff,
    ← hgap (fun gap => floatLt (floatScale (1000 / t.sampleRateHz) maxFactor) (.finite gap) = true)
      (floatLt_max _)]
  unfold invalidTimingRule
  dsimp only
  rw [hfactor, hhard, nominalMs_eq hrate hfits]
  simp only [ok_bind]
  split
  · rename_i h
    exact decides_reject (Or.inl h) fun hall => hall.1 h
  · rename_i hforwards
    split
    · rename_i h
      exact decides_reject (Or.inr h) fun hall => hall.2.1 h
    · rename_i hnear
      have hnone : ¬(0 ≤ ((stepsOf t.samples).foldl gapStep ⟨0, -1, -1⟩).backwardsIndex ∨
          hardGapMs < ((stepsOf t.samples).foldl gapStep ⟨0, -1, -1⟩).worstGapMs) :=
        not_or.mpr ⟨hforwards, hnear⟩
      split
      · rename_i h
        exact decides_warn hnone fun hall => hall.2.2 h
      · rename_i h
        exact decides_pass hnone ⟨hforwards, hnear, h⟩

/-- The loop over the lengths of the steps. -/
theorem deltaScan_spec (root : ℚ → ℚ) (rejectAt warnAt : JsonFloat) (samples : List SampleFrame) :
    (0 ≤ ((stepsOf samples).foldl (deltaStep root rejectAt warnAt)
      ⟨.finite 0, -1, -1, 0⟩).rejectIndex ↔
        ∃ a b, Next samples a b ∧ floatLe rejectAt (stepLength root a b) = true) ∧
    ((∀ a b, Next samples a b → floatLe rejectAt (stepLength root a b) = false) →
      (0 < ((stepsOf samples).foldl (deltaStep root rejectAt warnAt)
        ⟨.finite 0, -1, -1, 0⟩).warnCount ↔
          ∃ a b, Next samples a b ∧ floatLe warnAt (stepLength root a b) = true)) := by
  constructor
  · rw [rejectIndex_foldl_delta, foldl_first_nonneg
      (fun x : SampleFrame × SampleFrame => floatLe rejectAt (stepLength root x.1 x.2)),
      exists_mem_stepsOf (p := fun x => floatLe rejectAt (stepLength root x.1 x.2) = true)]
    simp only [Int.reduceNeg, Left.nonneg_neg_iff, Int.reduceLE, false_or]
  · intro hnone
    have hall : ∀ x ∈ stepsOf samples, floatLe rejectAt (stepLength root x.1.1 x.1.2) = false :=
      fun x hx => hnone _ _ (List.fst_mem_of_mem_zipIdx hx)
    rw [warnCount_foldl root rejectAt warnAt hall, Nat.zero_add, List.countP_pos_iff,
      exists_mem_stepsOf (p := fun x => floatLe warnAt (stepLength root x.1 x.2) = true)]

theorem teleportRule_decides {rejectAt warnAt : JsonFloat}
    (hreject : thresholdFloat py errorText thr "max_delta_m" = .ok rejectAt)
    (hwarn : thresholdFloat py errorText thr "soft_delta_m" = .ok warnAt)
    (hle : floatLt rejectAt warnAt = false) :
    Decides ((teleportRule py errorText root).evaluate t thr)
      (∃ a b, Next t.samples a b ∧ floatLe rejectAt (stepLength root a b) = true)
      (∀ a b, Next t.samples a b → floatLe rejectAt (stepLength root a b) = false ∧
        floatLe warnAt (stepLength root a b) = false) := by
  obtain ⟨hindex, hcount⟩ := deltaScan_spec root rejectAt warnAt t.samples
  unfold teleportRule
  dsimp only
  rw [hreject, hwarn]
  simp only [ok_bind]
  rw [if_neg (by simp [hle])]
  split
  · rename_i h
    obtain ⟨a, b, hnext, hfar⟩ := hindex.mp h
    refine decides_reject ⟨a, b, hnext, hfar⟩ fun hall => ?_
    rw [(hall a b hnext).1] at hfar
    cases hfar
  · rename_i h
    have hnone : ∀ a b, Next t.samples a b → floatLe rejectAt (stepLength root a b) = false :=
      fun a b hnext => Bool.eq_false_iff.mpr fun hfar => h (hindex.mpr ⟨a, b, hnext, hfar⟩)
    have hno : ¬∃ a b, Next t.samples a b ∧ floatLe rejectAt (stepLength root a b) = true :=
      fun hsome => h (hindex.mpr hsome)
    split
    · rename_i hwarned
      obtain ⟨a, b, hnext, hfar⟩ := (hcount hnone).mp hwarned
      refine decides_warn hno fun hall => ?_
      rw [(hall a b hnext).2] at hfar
      cases hfar
    · rename_i hquiet
      refine decides_pass hno ?_
      intro a b hnext
      refine ⟨hnone a b hnext, Bool.eq_false_iff.mpr fun hfar => ?_⟩
      exact hquiet ((hcount hnone).mpr ⟨a, b, hnext, hfar⟩)

/-- The loop over the speeds. -/
theorem speedScan_spec (root : ℚ → ℚ) (rejectAt warnAt : JsonFloat) (samples : List SampleFrame) :
    (0 ≤ (samples.zipIdx.foldl (speedStep root rejectAt warnAt) ⟨.finite 0, -1, 0, -1⟩).rejectIndex
      ↔ ∃ s ∈ samples, floatLe rejectAt (s.speedMps root) = true) ∧
    (samples.zipIdx.foldl (speedStep root rejectAt warnAt) ⟨.finite 0, -1, 0, -1⟩).spikeCount =
      samples.countP fun s => floatLt warnAt (s.speedMps root) := by
  constructor
  · rw [rejectIndex_foldl_speed, foldl_first_nonneg
      (fun s : SampleFrame => floatLe rejectAt (s.speedMps root)),
      exists_mem_zipIdx (p := fun s : SampleFrame => floatLe rejectAt (s.speedMps root) = true)]
    simp only [Int.reduceNeg, Left.nonneg_neg_iff, Int.reduceLE, false_or]
  · rw [spikeCount_foldl, Nat.zero_add]
    conv_rhs => rw [← List.zipIdx_map_fst 0 samples, List.countP_map]
    rfl

theorem outlierSpeedRule_decides {warnAt rejectAt : JsonFloat} {maxSpikes : Int}
    (hwarn : thresholdFloat py errorText thr "max_speed_mps" = .ok warnAt)
    (hreject : thresholdFloat py errorText thr "hard_cap_mps" = .ok rejectAt)
    (hspikes : thresholdInt py errorText thr "max_spike_count" = .ok maxSpikes)
    (hle : floatLt rejectAt warnAt = false) :
    Decides ((outlierSpeedRule py errorText root).evaluate t thr)
      ((∃ s ∈ t.samples, floatLe rejectAt (s.speedMps root) = true) ∨
        maxSpikes < t.samples.countP fun s => floatLt warnAt (s.speedMps root))
      ((∀ s ∈ t.samples, floatLe rejectAt (s.speedMps root) = false ∧
        floatLt warnAt (s.speedMps root) = false) ∧ 0 ≤ maxSpikes) := by
  obtain ⟨hindex, hcount⟩ := speedScan_spec root rejectAt warnAt t.samples
  unfold outlierSpeedRule
  dsimp only
  rw [hwarn, hreject, hspikes]
  simp only [ok_bind]
  rw [if_neg (by simp [hle]), hcount]
  have hzero : (t.samples.countP fun s => floatLt warnAt (s.speedMps root)) = 0 ↔
      ∀ s ∈ t.samples, floatLt warnAt (s.speedMps root) = false := by
    rw [List.countP_eq_zero]
    simp only [Bool.not_eq_true]
  split
  · rename_i h
    obtain ⟨s, hs, hfast⟩ := hindex.mp h
    refine decides_reject (Or.inl ⟨s, hs, hfast⟩) fun hall => ?_
    rw [(hall.1 s hs).1] at hfast
    cases hfast
  · rename_i h
    have hslow : ∀ s ∈ t.samples, floatLe rejectAt (s.speedMps root) = false :=
      fun s hs => Bool.eq_false_iff.mpr fun hfast => h (hindex.mpr ⟨s, hs, hfast⟩)
    split
    · rename_i hmany
      refine decides_reject (Or.inr hmany) fun hall => ?_
      rw [hzero.mpr fun s hs => (hall.1 s hs).2] at hmany
      exact (not_lt.mpr hall.2) hmany
    · rename_i hfew
      have hno : ¬((∃ s ∈ t.samples, floatLe rejectAt (s.speedMps root) = true) ∨
          maxSpikes < t.samples.countP fun s => floatLt warnAt (s.speedMps root)) :=
        not_or.mpr ⟨fun hsome => h (hindex.mpr hsome), hfew⟩
      split
      · rename_i hsome
        refine decides_warn hno fun hall => ?_
        exact hsome.ne' (hzero.mpr fun s hs => (hall.1 s hs).2)
      · rename_i hnone
        have hcountzero := Nat.eq_zero_of_not_pos hnone
        refine decides_pass hno ⟨fun s hs => ⟨hslow s hs, hzero.mp hcountzero s hs⟩, ?_⟩
        omega

theorem restartRule_decides {warnAt rejectAt : Int}
    (hwarn : thresholdInt py errorText thr "warn_at_count" = .ok warnAt)
    (hreject : thresholdInt py errorText thr "reject_at_count" = .ok rejectAt)
    (hle : warnAt ≤ rejectAt) : Decides ((restartRule py errorText).evaluate t thr)
      (rejectAt ≤ t.restartSampleIndices.length)
      ((t.restartSampleIndices.length : Int) < warnAt) := by
  unfold restartRule
  dsimp only
  rw [hwarn, hreject]
  simp only [ok_bind]
  rw [if_neg (not_lt.mpr hle)]
  split
  · rename_i h
    exact decides_reject h (by omega)
  · rename_i hfew
    split
    · rename_i h
      exact decides_warn hfew (not_lt.mpr h)
    · rename_i h
      exact decides_pass hfew (not_le.mp h)

theorem spectatorRule_decides {minDistance : JsonFloat}
    (hdistance : thresholdFloat py errorText thr "min_total_distance_m" = .ok minDistance) :
    Decides ((spectatorRule py errorText root).evaluate t thr)
      (floatLt (totalDistance root t.samples) minDistance = true)
      (floatLt (totalDistance root t.samples) minDistance = false) := by
  unfold spectatorRule
  dsimp only
  rw [hdistance]
  simp only [ok_bind]
  split
  · rename_i h
    exact decides_reject h (by simp [h])
  · rename_i h
    exact decides_pass h (by simpa using h)

/-- Samples whose times never go back. -/
theorem pairwise_of_forwards {samples : List SampleFrame}
    (h : ∀ a b, Next samples a b → a.timeMs ≤ b.timeMs) :
    samples.Pairwise fun a b => a.timeMs ≤ b.timeMs := by
  have htrans : IsTrans SampleFrame fun a b => a.timeMs ≤ b.timeMs :=
    ⟨fun _ _ _ hab hbc => le_trans hab hbc⟩
  refine List.isChain_iff_pairwise.mp ?_
  induction samples with
  | nil => exact .nil
  | cons a rest ih =>
    cases rest with
    | nil => exact .singleton a
    | cons b rest =>
      refine .cons_cons (h a b List.mem_cons_self) (ih fun x y hxy => h x y ?_)
      exact List.mem_cons_of_mem _ hxy

/-- The zero-motion rule on a run whose times never go back; on any other it returns, too. -/
theorem zeroMotionRule_decides {warnMs rejectMs : Int} {minMotion : ℚ}
    (hwarn : thresholdInt py errorText thr "warn_idle_ms" = .ok warnMs)
    (hreject : thresholdInt py errorText thr "reject_idle_ms" = .ok rejectMs)
    (hmotion : thresholdFloat py errorText thr "min_motion_m_per_sample" = .ok (.finite minMotion))
    (hle : warnMs ≤ rejectMs) (hne : t.samples ≠ []) (hrational : ∀ s ∈ t.samples, s.Rational) :
    ∃ broken sound, Decides ((zeroMotionRule py errorText).evaluate t thr) broken sound ∧
      ((∀ a b, Next t.samples a b → a.timeMs ≤ b.timeMs) →
        (broken ↔ ∃ d ∈ idleTimes minMotion t.samples, rejectMs ≤ d) ∧
        (sound ↔ ∀ d ∈ idleTimes minMotion t.samples, d < warnMs)) := by
  obtain ⟨first, rest, hsamples⟩ := List.exists_cons_of_ne_nil hne
  obtain ⟨hseverity, -⟩ :=
    idleVerdict_spec warnMs rejectMs (idleScan (.finite minMotion) first rest)
  have heval : (zeroMotionRule py errorText).evaluate t thr =
      .ok (idleVerdict warnMs rejectMs (idleScan (.finite minMotion) first rest)) := by
    unfold zeroMotionRule
    dsimp only
    rw [hwarn, hreject, hmotion, hsamples]
    simp only [ok_bind]
    rw [if_neg (not_lt.mpr hle)]
  rw [heval]
  refine ⟨_, _, decides_ok Iff.rfl Iff.rfl, fun hforwards => ?_⟩
  rw [hsamples] at hforwards hrational
  have hworst : IsGreatest (idleTimes minMotion (first :: rest)) _ :=
    worstMs_isGreatest hrational (pairwise_of_forwards hforwards)
  rw [hseverity, hsamples]
  unfold idleSeverity
  constructor
  · constructor
    · intro h
      split_ifs at h with hlong hwarned
      · exact ⟨_, hworst.1, hlong⟩
      · exact absurd h (by decide)
    · rintro ⟨d, hd, hlong⟩
      rw [if_pos (le_trans hlong (hworst.2 hd))]
  · constructor
    · intro h d hd
      split_ifs at h with hlong hwarned
      exact lt_of_le_of_lt (hworst.2 hd) (not_le.mp hwarned)
    · intro h
      have hshort := h _ hworst.1
      rw [if_neg (by omega), if_neg (by omega)]

/-- The default rules run on every telemetry, and their verdict is read off its samples: the run is
rejected when it is broken in one of ten ways, and clean when there is nothing to complain about. -/
theorem status_of_telemetry (h : Configured py errorText root thresholds l) (ht : WellFormed t) :
    ∃ results, runRules (defaultRules py errorText root) thresholds t = .ok results ∧
      ((classify py.toSidecarPython results).status = .rejected ↔ Broken root l t) ∧
      ((classify py.toSidecarPython results).status = .clean ↔ Sound root l t) := by
  obtain ⟨brokenIdle, soundIdle, hidle, hidles⟩ := zeroMotionRule_decides h.warnIdleMs
    h.rejectIdleMs h.minMotion h.idles ht.samples ht.rational
  have hrules : List.Forall₂ (fun rule c =>
      Decides (rule.evaluate t (merged thresholds rule)) c.1 c.2) (defaultRules py errorText root)
      [(_, _), (_, _), (_, _), (_, _), (_, _), (_, _), (_, _)] :=
    .cons (incompleteRule_decides h.minSamples h.minDurationMs ht.samples)
      (.cons (invalidTimingRule_decides h.maxGapFactor h.hardGapMs ht.rate ht.rateFits)
        (.cons (teleportRule_decides h.maxDeltaM h.softDeltaM h.deltas)
          (.cons (outlierSpeedRule_decides h.maxSpeedMps h.hardCapMps h.maxSpikeCount h.speeds)
            (.cons hidle
              (.cons (restartRule_decides h.warnAtCount h.rejectAtCount h.counts)
                (.cons (spectatorRule_decides h.minDistanceM) .nil))))))
  obtain ⟨results, hresults, hall⟩ := runRules_of_decides hrules
  obtain ⟨hrejected, hclean⟩ := status_of_forall₂ py.toSidecarPython hall
  refine ⟨results, hresults, hrejected.trans ?_, hclean.trans ?_⟩
  · simp only [List.mem_cons, List.not_mem_nil, or_false, exists_eq_or_imp, exists_eq_left]
    by_cases hforwards : ∀ a b, Next t.samples a b → a.timeMs ≤ b.timeMs
    · rw [(hidles hforwards).1]
      constructor
      · rintro ((h | ⟨hfinish, h⟩) | (⟨a, b, hnext, h⟩ | h) | ⟨a, b, hnext, h⟩ | (⟨s, hs, h⟩ | h) |
          ⟨d, hd, h⟩ | h | h)
        · exact .fewSamples h
        · exact .short hfinish h
        · exact .backwards hnext h
        · exact .gap h
        · exact .teleport hnext h
        · exact .tooFast hs h
        · exact .spikes h
        · exact .idle hd h
        · exact .restarts h
        · exact .nowhere h
      · intro hbroken
        cases hbroken with
        | fewSamples h => exact Or.inl (Or.inl h)
        | short hfinish h => exact Or.inl (Or.inr ⟨hfinish, h⟩)
        | backwards hnext h => exact (not_lt.mpr (hforwards _ _ hnext) h).elim
        | gap h => exact Or.inr (Or.inl (Or.inr h))
        | teleport hnext h => exact Or.inr (Or.inr (Or.inl ⟨_, _, hnext, h⟩))
        | tooFast hs h => exact Or.inr (Or.inr (Or.inr (Or.inl (Or.inl ⟨_, hs, h⟩))))
        | spikes h => exact Or.inr (Or.inr (Or.inr (Or.inl (Or.inr h))))
        | idle hd h => exact Or.inr (Or.inr (Or.inr (Or.inr (Or.inl ⟨_, hd, h⟩))))
        | restarts h => exact Or.inr (Or.inr (Or.inr (Or.inr (Or.inr (Or.inl h)))))
        | nowhere h => exact Or.inr (Or.inr (Or.inr (Or.inr (Or.inr (Or.inr h)))))
    · push Not at hforwards
      obtain ⟨a, b, hnext, hback⟩ := hforwards
      exact iff_of_true (Or.inr (Or.inl (Or.inl ⟨a, b, hnext, hback⟩))) (.backwards hnext hback)
  · simp only [List.mem_cons, List.not_mem_nil, or_false, forall_eq_or_imp, forall_eq]
    by_cases hforwards : ∀ a b, Next t.samples a b → a.timeMs ≤ b.timeMs
    · rw [(hidles hforwards).2]
      constructor
      · rintro ⟨⟨hsamples, hfinish⟩, ⟨-, hgap, hsoft⟩, hsteps, ⟨hspeeds, hspikes⟩, hmoving,
          hrestarts, hdistance⟩
        exact ⟨hsamples, hfinish, hforwards, hgap, hsoft, hsteps, hspeeds, hspikes, hmoving,
          hrestarts, hdistance⟩
      · intro h
        refine ⟨⟨h.samples, h.finished⟩, ⟨?_, h.noGap, h.noSoftGap⟩, h.steps,
          ⟨h.speeds, h.spikes⟩, h.moving, h.restarts, h.distance⟩
        rintro ⟨a, b, hnext, hback⟩
        exact not_lt.mpr (h.forwards a b hnext) hback
    · refine iff_of_false (fun hall => hforwards fun a b hnext => ?_) fun h => hforwards h.forwards
      exact not_lt.mp fun hback => hall.2.1.1 ⟨a, b, hnext, hback⟩

/-- The default configuration. -/
def defaultLimits : Limits :=
  ⟨50, 5000, .finite 3, 2000, .finite 10, .finite 5, .finite 150, .finite 250, 5, 3000, 10000,
    5 / 100, 1, 3, .finite 20⟩

theorem two_pow_lt_sub {m n : Nat} (k : Nat) (h : n < m) : 2 ^ n < 2 ^ (m + 1 + k) - 2 ^ m := by
  have hle : 2 ^ (m + 1) ≤ 2 ^ (m + 1 + k) := Nat.pow_le_pow_right (by decide) (by omega)
  have hdouble : 2 ^ (m + 1) = 2 ^ m * 2 := pow_succ 2 m
  have hlt : 2 ^ n < 2 ^ m := Nat.pow_lt_pow_right (by decide) h
  omega

theorem natAbs_lt_floatLimit {n : Int} (h : n.natAbs < 2 ^ 64) : n.natAbs < floatLimit := by
  unfold floatLimit
  have hlimit := @two_pow_lt_sub 970 64 53 (by decide)
  rw [show 970 + 1 + 53 = 1024 from rfl] at hlimit
  exact lt_trans h hlimit

theorem startIdler_rational : ∀ s ∈ startIdler.samples, s.Rational := by
  intro s hs
  simp only [startIdler, List.mem_cons, List.not_mem_nil, or_false] at hs
  obtain rfl | rfl | rfl := hs
  · exact ⟨rfl, rfl, rfl⟩
  · exact ⟨rfl, rfl, rfl⟩
  · exact ⟨rfl, rfl, rfl⟩

theorem status_of_telemetry_startIdler :
    ∃ results, runRules (defaultRules textlessPython (fun _ => "") fun _ => 8) Dict.empty
        startIdler = .ok results ∧
      ((classify textlessPython.toSidecarPython results).status = .rejected ↔
        Broken (fun _ => 8) defaultLimits startIdler) ∧
      ((classify textlessPython.toSidecarPython results).status = .clean ↔
        Sound (fun _ => 8) defaultLimits startIdler) := by
  refine status_of_telemetry ⟨rfl, rfl, rfl, rfl, rfl, rfl, by decide, rfl, rfl, rfl, by decide,
    rfl, rfl, rfl, by decide, rfl, rfl, by decide, rfl⟩ ⟨by decide, by decide, ?_, ?_⟩
  · exact natAbs_lt_floatLimit (by decide)
  · exact startIdler_rational

/-! ### Where and when the run is -/

/-- The sample, with the world moved and the clock set. -/
def SampleFrame.moved (dx dy dz : ℚ) (c : Int) (s : SampleFrame) : SampleFrame :=
  { s with
    timeMs := s.timeMs + c
    x := floatAdd s.x (.finite dx)
    y := floatAdd s.y (.finite dy)
    z := floatAdd s.z (.finite dz) }

def ReplayTelemetry.moved (dx dy dz : ℚ) (c : Int) (t : ReplayTelemetry) : ReplayTelemetry :=
  { t with samples := t.samples.map (SampleFrame.moved dx dy dz c) }

section Moved

variable (dx dy dz : ℚ) (c : Int) {samples : List SampleFrame}

theorem stepSquared_moved {a b : SampleFrame} (ha : a.Rational) (hb : b.Rational) :
    stepSquared (a.moved dx dy dz c) (b.moved dx dy dz c) = stepSquared a b := by
  unfold stepSquared SampleFrame.moved
  dsimp only
  rw [ha.x, ha.y, ha.z, hb.x, hb.y, hb.z]
  simp only [floatAdd, floatSub, add_sub_add_right_eq_sub]

theorem stepLength_moved {a b : SampleFrame} (ha : a.Rational) (hb : b.Rational) :
    stepLength root (a.moved dx dy dz c) (b.moved dx dy dz c) = stepLength root a b :=
  congrArg (floatRoot root) (stepSquared_moved dx dy dz c ha hb)

theorem stepsOf_map (f : SampleFrame → SampleFrame) (samples : List SampleFrame) :
    stepsOf (samples.map f) = (stepsOf samples).map (Prod.map (Prod.map f f) id) := by
  unfold stepsOf
  rw [← List.map_tail, List.zip_map, List.zipIdx_map]

/-- A loop over the steps that only reads what moving does not change. -/
theorem foldl_stepsOf_moved {σ : Type*} {step : σ → (SampleFrame × SampleFrame) × Nat → σ}
    (hrational : ∀ s ∈ samples, s.Rational)
    (hstep : ∀ s a b i, a.Rational → b.Rational →
      step s ((a.moved dx dy dz c, b.moved dx dy dz c), i) = step s ((a, b), i)) (s : σ) :
    (stepsOf (samples.map (SampleFrame.moved dx dy dz c))).foldl step s =
      (stepsOf samples).foldl step s := by
  rw [stepsOf_map, List.foldl_map]
  have hmem : ∀ x ∈ stepsOf samples, x.1.1.Rational ∧ x.1.2.Rational := by
    intro x hx
    have hzip : (x.1.1, x.1.2) ∈ samples.zip samples.tail := List.fst_mem_of_mem_zipIdx hx
    obtain ⟨ha, hb⟩ := List.of_mem_zip hzip
    exact ⟨hrational _ ha, hrational _ (List.mem_of_mem_tail hb)⟩
  exact List.foldl_ext _ _ _ fun s x hx => hstep s _ _ _ (hmem x hx).1 (hmem x hx).2

variable {t : ReplayTelemetry}

theorem durationMs_moved : (t.moved dx dy dz c).durationMs = t.durationMs := by
  unfold ReplayTelemetry.durationMs ReplayTelemetry.moved
  cases t.samples with
  | nil => rfl
  | cons first rest =>
    rw [List.map_cons]
    dsimp only
    have hlast : (rest.map (SampleFrame.moved dx dy dz c)).getLastD (first.moved dx dy dz c) =
        (rest.getLastD first).moved dx dy dz c := by
      rw [List.getLastD_eq_getLast?, List.getLastD_eq_getLast?, List.getLast?_map]
      cases rest.getLast? <;> rfl
    rw [hlast]
    unfold SampleFrame.moved
    dsimp only
    rw [add_sub_add_right_eq_sub]

theorem incompleteRule_moved :
    (incompleteRule py errorText).evaluate (t.moved dx dy dz c) thr =
      (incompleteRule py errorText).evaluate t thr := by
  have hlength : (t.moved dx dy dz c).samples.length = t.samples.length := List.length_map _
  unfold incompleteRule
  dsimp only
  rw [durationMs_moved, hlength]
  rfl

theorem deltaAt_moved (i : Int) :
    deltaAt (samples.map (SampleFrame.moved dx dy dz c)) i = deltaAt samples i := by
  unfold deltaAt
  rw [List.getElem?_map, List.getElem?_map]
  cases samples[i.toNat]? with
  | none => rfl
  | some b =>
    cases samples[i.toNat - 1]? with
    | none => rfl
    | some a => exact add_sub_add_right_eq_sub _ _ _

theorem invalidTimingRule_moved (hrational : ∀ s ∈ t.samples, s.Rational) :
    (invalidTimingRule py errorText).evaluate (t.moved dx dy dz c) thr =
      (invalidTimingRule py errorText).evaluate t thr := by
  have hgaps : (stepsOf (t.moved dx dy dz c).samples).foldl gapStep ⟨0, -1, -1⟩ =
      (stepsOf t.samples).foldl gapStep ⟨0, -1, -1⟩ := by
    refine foldl_stepsOf_moved dx dy dz c hrational (fun s a b i _ _ => ?_) _
    unfold gapStep SampleFrame.moved
    simp only [add_sub_add_right_eq_sub]
  have hdelta : ∀ i, deltaAt (t.moved dx dy dz c).samples i = deltaAt t.samples i :=
    deltaAt_moved dx dy dz c
  unfold invalidTimingRule
  dsimp only
  rw [hgaps]
  simp only [hdelta]
  rfl

theorem teleportRule_moved (hrational : ∀ s ∈ t.samples, s.Rational) :
    (teleportRule py errorText root).evaluate (t.moved dx dy dz c) thr =
      (teleportRule py errorText root).evaluate t thr := by
  have hdeltas : ∀ rejectAt warnAt s, (stepsOf (t.moved dx dy dz c).samples).foldl
      (deltaStep root rejectAt warnAt) s =
        (stepsOf t.samples).foldl (deltaStep root rejectAt warnAt) s := by
    intro rejectAt warnAt s
    refine foldl_stepsOf_moved dx dy dz c hrational (fun s a b i ha hb => ?_) s
    unfold deltaStep
    dsimp only
    rw [stepLength_moved dx dy dz c ha hb]
  unfold teleportRule
  dsimp only
  simp only [hdeltas]

theorem outlierSpeedRule_moved :
    (outlierSpeedRule py errorText root).evaluate (t.moved dx dy dz c) thr =
      (outlierSpeedRule py errorText root).evaluate t thr := by
  have hspeeds : ∀ rejectAt warnAt s, (t.moved dx dy dz c).samples.zipIdx.foldl
      (speedStep root rejectAt warnAt) s =
        t.samples.zipIdx.foldl (speedStep root rejectAt warnAt) s := by
    intro rejectAt warnAt s
    unfold ReplayTelemetry.moved
    rw [List.zipIdx_map, List.foldl_map]
    rfl
  unfold outlierSpeedRule
  dsimp only
  simp only [hspeeds]

theorem spectatorRule_moved (hrational : ∀ s ∈ t.samples, s.Rational) :
    (spectatorRule py errorText root).evaluate (t.moved dx dy dz c) thr =
      (spectatorRule py errorText root).evaluate t thr := by
  have htotal : totalDistance root (t.moved dx dy dz c).samples = totalDistance root t.samples := by
    refine foldl_stepsOf_moved dx dy dz c hrational (fun total a b i ha hb => ?_) _
    rw [stepLength_moved dx dy dz c ha hb]
  unfold spectatorRule
  dsimp only
  rw [htotal]

/-- The scan of a moved run is the same, up to the clock. -/
theorem idleScan_moved {minMotion : JsonFloat} {first : SampleFrame} {rest : List SampleFrame}
    (hrational : ∀ s ∈ first :: rest, s.Rational) :
    idleScan minMotion (first.moved dx dy dz c) (rest.map (SampleFrame.moved dx dy dz c)) =
      { idleScan minMotion first rest with
        runStartTime := (idleScan minMotion first rest).runStartTime + c } := by
  have hzip : ((first.moved dx dy dz c :: rest.map (SampleFrame.moved dx dy dz c)).zip
      (rest.map (SampleFrame.moved dx dy dz c))).zipIdx 1 =
        (((first :: rest).zip rest).zipIdx 1).map (Prod.map
          (Prod.map (SampleFrame.moved dx dy dz c) (SampleFrame.moved dx dy dz c)) id) := by
    rw [← List.map_cons, List.zip_map, List.zipIdx_map]
  have hmem : ∀ x ∈ ((first :: rest).zip rest).zipIdx 1, x.1.1.Rational ∧ x.1.2.Rational := by
    intro x hx
    have hpair : (x.1.1, x.1.2) ∈ (first :: rest).zip rest := List.fst_mem_of_mem_zipIdx hx
    obtain ⟨ha, hb⟩ := List.of_mem_zip hpair
    exact ⟨hrational _ ha, hrational _ (List.mem_cons_of_mem _ hb)⟩
  unfold idleScan
  rw [hzip, List.foldl_map]
  generalize ((first :: rest).zip rest).zipIdx 1 = xs at hmem
  suffices h : ∀ s : IdleScan, xs.foldl (fun s x => idleStep minMotion s (Prod.map (Prod.map
      (SampleFrame.moved dx dy dz c) (SampleFrame.moved dx dy dz c)) id x))
        { s with runStartTime := s.runStartTime + c } =
      { xs.foldl (idleStep minMotion) s with
        runStartTime := (xs.foldl (idleStep minMotion) s).runStartTime + c } from
    h ⟨0, -1, first.timeMs⟩
  intro s
  induction xs generalizing s with
  | nil => rfl
  | cons x xs ih =>
    obtain ⟨ha, hb⟩ := hmem x List.mem_cons_self
    rw [List.foldl_cons, List.foldl_cons, ← ih (fun y hy => hmem y (List.mem_cons_of_mem _ hy))]
    congr 1
    unfold idleStep
    dsimp only [Prod.map]
    rw [stepSquared_moved dx dy dz c ha hb]
    have hidle : (x.1.2.moved dx dy dz c).timeMs - (s.runStartTime + c) =
        x.1.2.timeMs - s.runStartTime := add_sub_add_right_eq_sub _ _ _
    rw [hidle]
    split_ifs <;> rfl

theorem zeroMotionRule_moved (hrational : ∀ s ∈ t.samples, s.Rational) :
    (zeroMotionRule py errorText).evaluate (t.moved dx dy dz c) thr =
      (zeroMotionRule py errorText).evaluate t thr := by
  unfold zeroMotionRule ReplayTelemetry.moved
  dsimp only
  cases hsamples : t.samples with
  | nil => rfl
  | cons first rest =>
    rw [hsamples] at hrational
    have hscan : ∀ warnMs rejectMs minMotion, idleVerdict warnMs rejectMs
        (idleScan minMotion (first.moved dx dy dz c) (rest.map (SampleFrame.moved dx dy dz c))) =
          idleVerdict warnMs rejectMs (idleScan minMotion first rest) := by
      intro warnMs rejectMs minMotion
      rw [idleScan_moved dx dy dz c hrational]
      rfl
    simp only [List.map_cons, hscan]

/-- Where the run is in the world and when its clock starts make no difference to the rules, their
evidence or their errors. -/
theorem runRules_moved (thresholds : Dict String Thresholds)
    (hrational : ∀ s ∈ t.samples, s.Rational) :
    runRules (defaultRules py errorText root) thresholds (t.moved dx dy dz c) =
      runRules (defaultRules py errorText root) thresholds t := by
  rw [runRules_eq, runRules_eq]
  refine mapM_eq_mapM fun rule hrule => ?_
  unfold defaultRules at hrule
  simp only [List.mem_cons, List.not_mem_nil, or_false] at hrule
  obtain rfl | rfl | rfl | rfl | rfl | rfl | rfl := hrule
  · exact incompleteRule_moved dx dy dz c
  · exact invalidTimingRule_moved dx dy dz c hrational
  · exact teleportRule_moved dx dy dz c hrational
  · exact outlierSpeedRule_moved dx dy dz c
  · exact zeroMotionRule_moved dx dy dz c hrational
  · rfl
  · exact spectatorRule_moved dx dy dz c hrational

end Moved

theorem runRules_moved_startIdler :
    runRules (defaultRules textlessPython (fun _ => "") fun _ => 8) Dict.empty
        (startIdler.moved 32 0 (-16) 500) =
      runRules (defaultRules textlessPython (fun _ => "") fun _ => 8) Dict.empty startIdler :=
  runRules_moved 32 0 (-16) 500 Dict.empty startIdler_rational

end TraxMania.Replay
