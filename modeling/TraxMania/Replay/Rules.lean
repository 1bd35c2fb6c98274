import TraxMania.Replay.ZeroMotion

/-
  `replay/rules/`: the rules that clean a replay on its telemetry, and what each of them decides
  by. Over exact rationals. A root is a parameter, and no result here depends on what it returns.
-/

namespace TraxMania.Replay

open TraxMania.Generation TraxMania.Generation.Llm

/-! ## Floats -/

/-- `x < y`. -/
def floatLt : JsonFloat → JsonFloat → Bool
  | .nan, _ => false
  | _, .nan => false
  | .finite x, .finite y => x < y
  | .finite _, .infinite negative => !negative
  | .infinite negative, .finite _ => negative
  | .infinite negative, .infinite negative' => negative && !negative'

/-- `x <= y`. -/
def floatLe : JsonFloat → JsonFloat → Bool
  | .nan, _ => false
  | _, .nan => false
  | .finite x, .finite y => x ≤ y
  | .finite _, .infinite negative => !negative
  | .infinite negative, .finite _ => negative
  | .infinite negative, .infinite negative' => negative || !negative'

/-- `x ** 0.5`, for an `x` that is not negative. -/
def floatRoot (root : ℚ → ℚ) : JsonFloat → JsonFloat
  | .finite x => .finite (root x)
  | x => x

/-! ## Samples -/

/-- `speed_mps`. -/
def SampleFrame.speedMps (root : ℚ → ℚ) (s : SampleFrame) : JsonFloat :=
  floatRoot root (floatAdd (floatAdd (floatSquare s.vx) (floatSquare s.vy)) (floatSquare s.vz))

/-- The length of the step from a sample to the next. -/
def stepLength (root : ℚ → ℚ) (prev curr : SampleFrame) : JsonFloat :=
  floatRoot root (stepSquared prev curr)

/-- What `for i in range(1, len(samples))` reads: two samples in a row, and `i`. -/
def stepsOf (samples : List SampleFrame) : List ((SampleFrame × SampleFrame) × Nat) :=
  (samples.zip samples.tail).zipIdx 1

/-- `samples[-1].time_ms - samples[0].time_ms`. -/
def ReplayTelemetry.durationMs (t : ReplayTelemetry) : Except String Int :=
  match t.samples with
  | [] => .error "tuple index out of range"
  | first :: rest => .ok ((rest.getLastD first).timeMs - first.timeMs)

section Rules

variable (py : RigPython) (errorText : PyError → String) (root : ℚ → ℚ)

/-- `IncompleteRule`. -/
def incompleteRule : Rule ReplayTelemetry where
  name := "incomplete"
  defaultThresholds := ⟨[("min_samples", .int 50), ("min_duration_ms", .int 5000)], by decide⟩
  evaluate := fun telemetry thresholds => do
    let minSamples ← thresholdInt py errorText thresholds "min_samples"
    let minDurationMs ← thresholdInt py errorText thresholds "min_duration_ms"
    if (telemetry.samples.length : Int) < minSamples then
      .ok ⟨"incomplete", "1.0.0", some .reject, [("reason", .str "too_few_samples"),
        ("sample_count", .int telemetry.samples.length), ("min_samples", .int minSamples)]⟩
    else do
      let durationMs ← telemetry.durationMs
      match telemetry.finishTimeMs with
      | none =>
        if durationMs < minDurationMs then
          .ok ⟨"incomplete", "1.0.0", some .reject, [("reason", .str "too_short_no_finish"),
            ("duration_ms", .int durationMs), ("min_duration_ms", .int minDurationMs)]⟩
        else .ok ⟨"incomplete", "1.0.0", some .warn, [("reason", .str "no_finish_event"),
          ("duration_ms", .int durationMs)]⟩
      | some finishTimeMs =>
        .ok ⟨"incomplete", "1.0.0", none, [("sample_count", .int telemetry.samples.length),
          ("duration_ms", .int durationMs), ("finish_time_ms", .int finishTimeMs)]⟩

/-- The variables of a loop that looks for the largest value and the first one to reject. -/
structure GapScan where
  worstGapMs : Int
  worstGapIndex : Int
  backwardsIndex : Int

def gapStep (s : GapScan) : (SampleFrame × SampleFrame) × Nat → GapScan
  | ((prev, curr), i) =>
    let dt := curr.timeMs - prev.timeMs
    let s := if dt < 0 ∧ s.backwardsIndex < 0 then { s with backwardsIndex := i } else s
    if s.worstGapMs < dt then { s with worstGapMs := dt, worstGapIndex := i } else s

/-- `1000.0 / sample_rate_hz`. -/
def nominalMs (sampleRateHz : Int) : Except String ℚ :=
  if floatLimit ≤ sampleRateHz.natAbs then .error (errorText .overflowError)
  else if sampleRateHz = 0 then .error "float division by zero"
  else .ok (1000 / sampleRateHz)

/-- `samples[i].time_ms - samples[i - 1].time_ms`. -/
def deltaAt (samples : List SampleFrame) (i : Int) : Int :=
  match samples[i.toNat]?, samples[i.toNat - 1]? with
  | some curr, some prev => curr.timeMs - prev.timeMs
  | _, _ => 0

/-- `InvalidTimingRule`. -/
def invalidTimingRule : Rule ReplayTelemetry where
  name := "invalid_timing"
  defaultThresholds :=
    ⟨[("max_gap_factor", .float (.finite 3)), ("hard_gap_ms", .int 2000)], by decide⟩
  evaluate := fun telemetry thresholds => do
    let maxFactor ← thresholdFloat py errorText thresholds "max_gap_factor"
    let hardGapMs ← thresholdInt py errorText thresholds "hard_gap_ms"
    let nominal ← nominalMs errorText telemetry.sampleRateHz
    let s := (stepsOf telemetry.samples).foldl gapStep ⟨0, -1, -1⟩
    if 0 ≤ s.backwardsIndex then
      .ok ⟨"invalid_timing", "1.0.0", some .reject, [("reason", .str "non_monotonic_timestamps"),
        ("at_sample_index", .int s.backwardsIndex),
        ("delta_ms", .int (deltaAt telemetry.samples s.backwardsIndex))]⟩
    else if hardGapMs < s.worstGapMs then
      .ok ⟨"invalid_timing", "1.0.0", some .reject, [("reason", .str "excessive_gap"),
        ("worst_gap_ms", .int s.worstGapMs), ("at_sample_index", .int s.worstGapIndex),
        ("hard_gap_ms", .int hardGapMs)]⟩
    else if floatLt (floatScale nominal maxFactor) (.finite s.worstGapMs) then
      .ok ⟨"invalid_timing", "1.0.0", some .warn, [("reason", .str "gap_above_nominal"),
        ("worst_gap_ms", .int s.worstGapMs), ("nominal_ms", .float (.finite nominal)),
        ("max_gap_factor", .float maxFactor), ("at_sample_index", .int s.worstGapIndex)]⟩
    else .ok ⟨"invalid_timing", "1.0.0", none, [("worst_gap_ms", .int s.worstGapMs),
      ("nominal_ms", .float (.finite nominal))]⟩

structure DeltaScan where
  worstDeltaM : JsonFloat
  worstIndex : Int
  rejectIndex : Int
  warnCount : Nat

def deltaStep (rejectAt warnAt : JsonFloat) (s : DeltaScan) :
    (SampleFrame × SampleFrame) × Nat → DeltaScan
  | ((prev, curr), i) =>
    let delta := stepLength root prev curr
    let s := if floatLt s.worstDeltaM delta then { s with worstDeltaM := delta, worstIndex := i }
      else s
    if floatLe rejectAt delta ∧ s.rejectIndex < 0 then { s with rejectIndex := i }
    else if floatLe warnAt delta then { s with warnCount := s.warnCount + 1 }
    else s

/-- `TeleportRule`. -/
def teleportRule : Rule ReplayTelemetry where
  name := "teleport"
  defaultThresholds :=
    ⟨[("max_delta_m", .float (.finite 10)), ("soft_delta_m", .float (.finite 5))], by decide⟩
  evaluate := fun telemetry thresholds => do
    let rejectAt ← thresholdFloat py errorText thresholds "max_delta_m"
    let warnAt ← thresholdFloat py errorText thresholds "soft_delta_m"
    if floatLt rejectAt warnAt then .error "soft_delta_m must be <= max_delta_m"
    else
      let s := (stepsOf telemetry.samples).foldl (deltaStep root rejectAt warnAt)
        ⟨.finite 0, -1, -1, 0⟩
      if 0 ≤ s.rejectIndex then
        .ok ⟨"teleport", "1.0.0", some .reject, [("reason", .str "teleport_detected"),
          ("at_sample_index", .int s.rejectIndex), ("delta_m", .float s.worstDeltaM),
          ("max_delta_m", .float rejectAt)]⟩
      else if 0 < s.warnCount then
        .ok ⟨"teleport", "1.0.0", some .warn, [("reason", .str "large_position_jumps"),
          ("worst_delta_m", .float s.worstDeltaM), ("at_sample_index", .int s.worstIndex),
          ("jumps_above_soft", .int s.warnCount), ("soft_delta_m", .float warnAt)]⟩
      else .ok ⟨"teleport", "1.0.0", none, [("worst_delta_m", .float s.worstDeltaM)]⟩

structure SpeedScan where
  topSpeed : JsonFloat
  topIndex : Int
  spikeCount : Nat
  rejectIndex : Int

def speedStep (rejectAt warnAt : JsonFloat) (s : SpeedScan) : SampleFrame × Nat → SpeedScan
  | (sample, i) =>
    let speed := sample.speedMps root
    let s := if floatLt s.topSpeed speed then { s with topSpeed := speed, topIndex := i } else s
    let s := if floatLe rejectAt speed ∧ s.rejectIndex < 0 then { s with rejectIndex := i } else s
    if floatLt warnAt speed then { s with spikeCount := s.spikeCount + 1 } else s

/-- `OutlierSpeedRule`. -/
def outlierSpeedRule : Rule ReplayTelemetry where
  name := "outlier_speed"
  defaultThresholds := ⟨[("max_speed_mps", .float (.finite 150)),
    ("hard_cap_mps", .float (.finite 250)), ("max_spike_count", .int 5)], by decide⟩
  evaluate := fun telemetry thresholds => do
    let warnAt ← thresholdFloat py errorText thresholds "max_speed_mps"
    let rejectAt ← thresholdFloat py errorText thresholds "hard_cap_mps"
    let maxSpikes ← thresholdInt py errorText thresholds "max_spike_count"
    if floatLt rejectAt warnAt then .error "max_speed_mps must be <= hard_cap_mps"
    else
      let s := telemetry.samples.zipIdx.foldl (speedStep root rejectAt warnAt)
        ⟨.finite 0, -1, 0, -1⟩
      if 0 ≤ s.rejectIndex then
        .ok ⟨"outlier_speed", "1.0.0", some .reject, [("reason", .str "speed_hard_cap_exceeded"),
          ("at_sample_index", .int s.rejectIndex), ("top_speed_mps", .float s.topSpeed),
          ("hard_cap_mps", .float rejectAt)]⟩
      else if maxSpikes < s.spikeCount then
        .ok ⟨"outlier_speed", "1.0.0", some .reject, [("reason", .str "too_many_speed_spikes"),
          ("spike_count", .int s.spikeCount), ("max_spike_count", .int maxSpikes),
          ("top_speed_mps", .float s.topSpeed)]⟩
      else if 0 < s.spikeCount then
        .ok ⟨"outlier_speed", "1.0.0", some .warn, [("reason", .str "speed_spikes_above_soft"),
          ("spike_count", .int s.spikeCount), ("top_speed_mps", .float s.topSpeed),
          ("max_speed_mps", .float warnAt), ("at_sample_index", .int s.topIndex)]⟩
      else .ok ⟨"outlier_speed", "1.0.0", none, [("top_speed_mps", .float s.topSpeed)]⟩

/-- `RestartRule`. -/
def restartRule : Rule ReplayTelemetry where
  name := "restart"
  defaultThresholds := ⟨[("warn_at_count", .int 1), ("reject_at_count", .int 3)], by decide⟩
  evaluate := fun telemetry thresholds => do
    let warnAt ← thresholdInt py errorText thresholds "warn_at_count"
    let rejectAt ← thresholdInt py errorText thresholds "reject_at_count"
    if rejectAt < warnAt then .error "warn_at_count must be <= reject_at_count"
    else
      let count := telemetry.restartSampleIndices.length
      if rejectAt ≤ count then
        .ok ⟨"restart", "1.0.0", some .reject, [("reason", .str "too_many_restarts"),
          ("restart_count", .int count), ("reject_at_count", .int rejectAt)]⟩
      else if warnAt ≤ count then
        .ok ⟨"restart", "1.0.0", some .warn, [("reason", .str "restart_events_present"),
          ("restart_count", .int count), ("warn_at_count", .int warnAt)]⟩
      else .ok ⟨"restart", "1.0.0", none, [("restart_count", .int count)]⟩

/-- The sum of the lengths of the steps. -/
def totalDistance (samples : List SampleFrame) : JsonFloat :=
  (stepsOf samples).foldl (fun total step => floatAdd total (stepLength root step.1.1 step.1.2))
    (.finite 0)

/-- `SpectatorRule`. -/
def spectatorRule : Rule ReplayTelemetry where
  name := "spectator"
  defaultThresholds := ⟨[("min_total_distance_m", .float (.finite 20))], by decide⟩
  evaluate := fun telemetry thresholds => do
    let minDistance ← thresholdFloat py errorText thresholds "min_total_distance_m"
    let total := totalDistance root telemetry.samples
    if floatLt total minDistance then
      .ok ⟨"spectator", "1.0.0", some .reject, [("reason", .str "insufficient_path_length"),
        ("total_distance_m", .float total), ("min_total_distance_m", .float minDistance)]⟩
    else .ok ⟨"spectator", "1.0.0", none, [("total_distance_m", .float total)]⟩

/-- `default_rules()`. -/
def defaultRules : List (Rule ReplayTelemetry) :=
  [incompleteRule py errorText, invalidTimingRule py errorText, teleportRule py errorText root,
    outlierSpeedRule py errorText root, zeroMotionRule py errorText, restartRule py errorText,
    spectatorRule py errorText root]

end Rules

/-! ## What the loops find -/

/-- Keeping the first index at which `p` holds. -/
theorem foldl_first_nonneg {α : Type*} (p : α → Bool) (xs : List (α × Nat)) (found : Int) :
    0 ≤ xs.foldl (fun found x => if p x.1 ∧ found < 0 then (x.2 : Int) else found) found ↔
      0 ≤ found ∨ ∃ x ∈ xs, p x.1 = true := by
  induction xs generalizing found with
  | nil => simp
  | cons x xs ih =>
    rw [List.foldl_cons, ih, List.exists_mem_cons_iff, ← or_assoc]
    refine or_congr_left ?_
    split
    · rename_i hfirst
      exact iff_of_true (Int.natCast_nonneg _) (Or.inr hfirst.1)
    · rename_i hnot
      constructor
      · exact Or.inl
      · rintro (hfound | hp)
        · exact hfound
        · exact not_lt.mp fun hlt => hnot ⟨hp, hlt⟩

theorem exists_mem_zipIdx {α : Type*} {xs : List α} {n : Nat} {p : α → Prop} :
    (∃ x ∈ xs.zipIdx n, p x.1) ↔ ∃ x ∈ xs, p x := by
  constructor
  · rintro ⟨⟨x, i⟩, hx, hp⟩
    exact ⟨x, List.fst_mem_of_mem_zipIdx hx, hp⟩
  · rintro ⟨x, hx, hp⟩
    obtain ⟨i, hi, rfl⟩ := List.mem_iff_getElem.mp hx
    have hmem : (xs[i], n + i) ∈ xs.zipIdx n :=
      List.mk_add_mem_zipIdx_iff_getElem?.mpr (List.getElem?_eq_getElem hi)
    exact ⟨_, hmem, hp⟩

/-- The two samples follow each other. -/
def Next (samples : List SampleFrame) (a b : SampleFrame) : Prop :=
  (a, b) ∈ samples.zip samples.tail

theorem exists_mem_stepsOf {samples : List SampleFrame} {p : SampleFrame × SampleFrame → Prop} :
    (∃ x ∈ stepsOf samples, p x.1) ↔ ∃ a b, Next samples a b ∧ p (a, b) := by
  unfold stepsOf
  rw [exists_mem_zipIdx]
  constructor
  · rintro ⟨⟨a, b⟩, hab, hp⟩
    exact ⟨a, b, hab, hp⟩
  · rintro ⟨a, b, hab, hp⟩
    exact ⟨(a, b), hab, hp⟩

section Scans

variable (root : ℚ → ℚ) (rejectAt warnAt : JsonFloat)

theorem backwardsIndex_foldl (xs : List ((SampleFrame × SampleFrame) × Nat)) (s : GapScan) :
    (xs.foldl gapStep s).backwardsIndex = xs.foldl (fun found x =>
      if decide (x.1.2.timeMs - x.1.1.timeMs < 0) ∧ found < 0 then (x.2 : Int) else found)
        s.backwardsIndex := by
  refine (List.foldl_hom GapScan.backwardsIndex fun s x => ?_).symm
  unfold gapStep
  dsimp only
  simp only [decide_eq_true_eq]
  split_ifs <;> rfl

/-- What holds of the worst gap, for a property that a maximum has as soon as one of the two. -/
theorem worstGapMs_foldl {p : Int → Prop} (hmax : ∀ x y, p (max x y) ↔ p x ∨ p y)
    (xs : List ((SampleFrame × SampleFrame) × Nat)) (s : GapScan) :
    p (xs.foldl gapStep s).worstGapMs ↔
      p s.worstGapMs ∨ ∃ x ∈ xs, p (x.1.2.timeMs - x.1.1.timeMs) := by
  induction xs generalizing s with
  | nil => simp
  | cons x xs ih =>
    obtain ⟨⟨a, b⟩, i⟩ := x
    have hworst : (gapStep s ((a, b), i)).worstGapMs = max s.worstGapMs (b.timeMs - a.timeMs) := by
      unfold gapStep
      dsimp only
      split_ifs with _ hlt hlt
      · exact (max_eq_right (le_of_lt hlt)).symm
      · exact (max_eq_left (not_lt.mp hlt)).symm
      · exact (max_eq_right (le_of_lt hlt)).symm
      · exact (max_eq_left (not_lt.mp hlt)).symm
    rw [List.foldl_cons, ih, hworst, hmax, or_assoc, List.exists_mem_cons_iff]

theorem rejectIndex_foldl_delta (xs : List ((SampleFrame × SampleFrame) × Nat)) (s : DeltaScan) :
    (xs.foldl (deltaStep root rejectAt warnAt) s).rejectIndex = xs.foldl (fun found x =>
      if floatLe rejectAt (stepLength root x.1.1 x.1.2) ∧ found < 0 then (x.2 : Int) else found)
        s.rejectIndex := by
  refine (List.foldl_hom DeltaScan.rejectIndex fun s x => ?_).symm
  unfold deltaStep
  dsimp only
  split_ifs <;> rfl

/-- As long as no step is rejected, the steps from the soft bound on are counted. -/
theorem warnCount_foldl {xs : List ((SampleFrame × SampleFrame) × Nat)} {s : DeltaScan}
    (h : ∀ x ∈ xs, floatLe rejectAt (stepLength root x.1.1 x.1.2) = false) :
    (xs.foldl (deltaStep root rejectAt warnAt) s).warnCount =
      s.warnCount + xs.countP fun x => floatLe warnAt (stepLength root x.1.1 x.1.2) := by
  induction xs generalizing s with
  | nil => rfl
  | cons x xs ih =>
    have hx := h x List.mem_cons_self
    rw [List.foldl_cons, ih fun y hy => h y (List.mem_cons_of_mem _ hy), List.countP_cons]
    unfold deltaStep
    dsimp only
    rw [hx]
    split_ifs <;> simp_all <;> omega

theorem rejectIndex_foldl_speed (xs : List (SampleFrame × Nat)) (s : SpeedScan) :
    (xs.foldl (speedStep root rejectAt warnAt) s).rejectIndex = xs.foldl (fun found x =>
      if floatLe rejectAt (x.1.speedMps root) ∧ found < 0 then (x.2 : Int) else found)
        s.rejectIndex := by
  refine (List.foldl_hom SpeedScan.rejectIndex fun s x => ?_).symm
  unfold speedStep
  dsimp only
  split_ifs <;> rfl

theorem spikeCount_foldl (xs : List (SampleFrame × Nat)) (s : SpeedScan) :
    (xs.foldl (speedStep root rejectAt warnAt) s).spikeCount =
      s.spikeCount + xs.countP fun x => floatLt warnAt (x.1.speedMps root) := by
  induction xs generalizing s with
  | nil => rfl
  | cons x xs ih =>
    rw [List.foldl_cons, ih, List.countP_cons]
    unfold speedStep
    dsimp only
    split_ifs <;> simp_all <;> omega

end Scans

end TraxMania.Replay
