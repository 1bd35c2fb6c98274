import TraxMania.Replay.CleanPipeline
import TraxMania.Replay.RigAdapter
import TraxMania.Lib.Runs

/-
  `replay/rules/zero_motion.py`: the longest window of samples in which the car barely moves. Over
  exact rationals, where the length of a step is compared with the bound by its square.

  The pass over the steps is the scan of `Lib.LongestStretch`: a moving step opens a new window at
  its sample, a still one extends the open window, so that the worst time is the greatest of any
  window of still steps (`zeroMotion_exact`).
-/

namespace TraxMania.Replay

open TraxMania.Generation TraxMania.Generation.Llm Lib.LongestStretch

/-! ## The length of a step -/

/-- `x + y` of two floats. -/
def floatAdd : JsonFloat → JsonFloat → JsonFloat
  | .finite x, .finite y => .finite (x + y)
  | .finite _, .infinite negative => .infinite negative
  | .infinite negative, .finite _ => .infinite negative
  | .infinite negative, .infinite negative' =>
    if negative = negative' then .infinite negative else .nan
  | _, _ => .nan

/-- `x * x`. -/
def floatSquare : JsonFloat → JsonFloat
  | .finite x => .finite (x * x)
  | .infinite _ => .infinite false
  | .nan => .nan

/-- `dx * dx + dy * dy + dz * dz`. -/
def stepSquared (prev curr : SampleFrame) : JsonFloat :=
  floatAdd (floatAdd (floatSquare (floatSub curr.x prev.x)) (floatSquare (floatSub curr.y prev.y)))
    (floatSquare (floatSub curr.z prev.z))

/-- `squared ** 0.5 >= bound`, for a square that is not negative. -/
def rootReaches : JsonFloat → JsonFloat → Bool
  | .nan, _ => false
  | _, .nan => false
  | .infinite _, _ => true
  | .finite _, .infinite negative => negative
  | .finite squared, .finite bound => bound ≤ 0 || bound * bound ≤ squared

/-! ## The pass over the steps -/

/-- The variables of the loop. -/
structure IdleScan where
  worstMs : Int
  worstEndIndex : Int
  runStartTime : Int

/-- One turn of the loop, at the sample `i`. -/
def idleStep (minMotion : JsonFloat) (s : IdleScan) : (SampleFrame × SampleFrame) × Nat → IdleScan
  | ((prev, curr), i) =>
    if rootReaches (stepSquared prev curr) minMotion then { s with runStartTime := curr.timeMs }
    else
      let idleMs := curr.timeMs - s.runStartTime
      if s.worstMs < idleMs then { s with worstMs := idleMs, worstEndIndex := i } else s

/-- The loop over the samples behind the first. -/
def idleScan (minMotion : JsonFloat) (first : SampleFrame) (rest : List SampleFrame) : IdleScan :=
  (((first :: rest).zip rest).zipIdx 1).foldl (idleStep minMotion) ⟨0, -1, first.timeMs⟩

/-! ## The rule -/

section Rule

variable (py : RigPython) (errorText : PyError → String)

/-- `thresholds[key]`. -/
def threshold (thresholds : Thresholds) (key : String) : Except String Json :=
  match thresholds.get? key with
  | some value => .ok value
  | none => .error ("'" ++ key ++ "'")

/-- `int(thresholds[key])`. -/
def thresholdInt (thresholds : Thresholds) (key : String) : Except String Int := do
  let value ← threshold thresholds key
  (value.toInt py.toPython).mapError errorText

/-- `float(thresholds[key])`. -/
def thresholdFloat (thresholds : Thresholds) (key : String) : Except String JsonFloat := do
  let value ← threshold thresholds key
  (toFloat py.toLlmPython value).mapError errorText

/-- `_reject`, `_warn` and `_pass`. -/
def idleVerdict (warnMs rejectMs : Int) (s : IdleScan) : RuleResult :=
  if rejectMs ≤ s.worstMs then
    ⟨"zero_motion", "1.0.0", some .reject, [("reason", .str "long_idle_window"),
      ("worst_idle_ms", .int s.worstMs), ("reject_idle_ms", .int rejectMs),
      ("at_sample_index", .int s.worstEndIndex)]⟩
  else if warnMs ≤ s.worstMs then
    ⟨"zero_motion", "1.0.0", some .warn, [("reason", .str "idle_window"),
      ("worst_idle_ms", .int s.worstMs), ("warn_idle_ms", .int warnMs),
      ("at_sample_index", .int s.worstEndIndex)]⟩
  else ⟨"zero_motion", "1.0.0", none, [("worst_idle_ms", .int s.worstMs)]⟩

/-- `ZeroMotionRule`. -/
def zeroMotionRule : Rule ReplayTelemetry where
  name := "zero_motion"
  defaultThresholds :=
    ⟨[("warn_idle_ms", .int 3000), ("reject_idle_ms", .int 10000),
      ("min_motion_m_per_sample", .float (.finite (5 / 100)))], by decide⟩
  evaluate := fun telemetry thresholds => do
    let warnMs ← thresholdInt py errorText thresholds "warn_idle_ms"
    let rejectMs ← thresholdInt py errorText thresholds "reject_idle_ms"
    let minMotion ← thresholdFloat py errorText thresholds "min_motion_m_per_sample"
    if rejectMs < warnMs then .error "warn_idle_ms must be <= reject_idle_ms"
    else
      match telemetry.samples with
      | [] => .error "tuple index out of range"
      | first :: rest => .ok (idleVerdict warnMs rejectMs (idleScan minMotion first rest))

end Rule

/-! ## Idle windows -/

/-- The number that a finite float is. -/
def finiteValue : JsonFloat → ℚ
  | .finite x => x
  | _ => 0

/-- The position is rational. -/
structure SampleFrame.Rational (s : SampleFrame) : Prop where
  x : s.x = .finite (finiteValue s.x)
  y : s.y = .finite (finiteValue s.y)
  z : s.z = .finite (finiteValue s.z)

/-- The step is shorter than the bound, by the squares. -/
def ShorterStep (minMotion : ℚ) (a b : SampleFrame) : Prop :=
  0 < minMotion ∧
    (finiteValue b.x - finiteValue a.x) ^ 2 + (finiteValue b.y - finiteValue a.y) ^ 2 +
      (finiteValue b.z - finiteValue a.z) ^ 2 < minMotion ^ 2

/-- From the sample `i` to the sample `j` every step is shorter than the bound. -/
structure IdleWindow (minMotion : ℚ) (samples : List SampleFrame) (i j : Nat) : Prop where
  ordered : i ≤ j
  inside : j < samples.length
  still : ∀ k (h : k + 1 < samples.length), i ≤ k → k < j →
    ShorterStep minMotion samples[k] samples[k + 1]

/-- How long the idle windows take; a window of one sample takes no time. -/
def idleTimes (minMotion : ℚ) (samples : List SampleFrame) : Set Int :=
  {d | ∃ i j a b, IdleWindow minMotion samples i j ∧ samples[i]? = some a ∧ samples[j]? = some b ∧
    d = b.timeMs - a.timeMs}

theorem rootReaches_stepSquared {a b : SampleFrame} (ha : a.Rational) (hb : b.Rational)
    (minMotion : ℚ) :
    rootReaches (stepSquared a b) (.finite minMotion) = true ↔ ¬ShorterStep minMotion a b := by
  unfold stepSquared
  rw [ha.x, ha.y, ha.z, hb.x, hb.y, hb.z]
  simp only [floatSub, floatSquare, floatAdd, rootReaches, Bool.or_eq_true, decide_eq_true_eq]
  unfold ShorterStep
  rw [not_and_or, not_lt, not_lt, sq, sq, sq, sq]

/-! ## The scan -/

/-- The time of a sample. -/
def timeAt (samples : List SampleFrame) (k : Nat) : Int := (samples.map SampleFrame.timeMs).getD k 0

/-- The step behind a sample is shorter than the bound. -/
def stillAt (minMotion : ℚ) (samples : List SampleFrame) (k : Nat) : Prop :=
  ∃ h : k + 1 < samples.length, ShorterStep minMotion samples[k] samples[k + 1]

theorem timeAt_eq {samples : List SampleFrame} {k : Nat} (h : k < samples.length) :
    timeAt samples k = samples[k].timeMs := by
  simp [timeAt, h]

theorem kept_iff_idleWindow {minMotion : ℚ} {samples : List SampleFrame} {i j : Nat}
    (hj : j < samples.length) :
    Kept (stillAt minMotion samples) i j ↔ IdleWindow minMotion samples i j := by
  constructor
  · intro h
    refine ⟨h.1, hj, fun k hk hik hkj => ?_⟩
    obtain ⟨_, hstep⟩ := h.2 k hik hkj
    exact hstep
  · intro h
    exact ⟨h.ordered, fun k hik hkj => ⟨by omega, h.still k (by omega) hik hkj⟩⟩

theorem idleTimes_eq_spans {minMotion : ℚ} {samples : List SampleFrame} {n : Nat}
    (hn : samples.length = n + 1) : idleTimes minMotion samples =
      spans (stillAt minMotion samples) (timeAt samples) n := by
  ext d
  constructor
  · intro h
    obtain ⟨i, j, a, b, hwindow, ha, hb, rfl⟩ := h
    have hj := hwindow.inside
    have hi : i < samples.length := lt_of_le_of_lt hwindow.ordered hj
    refine ⟨i, j, by omega, (kept_iff_idleWindow hj).mpr hwindow, ?_⟩
    rw [timeAt_eq hi, timeAt_eq hj]
    rw [List.getElem?_eq_getElem hi, Option.some.injEq] at ha
    rw [List.getElem?_eq_getElem hj, Option.some.injEq] at hb
    rw [ha, hb]
  · intro h
    obtain ⟨i, j, hj, hkept, rfl⟩ := h
    have hjlt : j < samples.length := by omega
    have hi : i < samples.length := lt_of_le_of_lt hkept.1 hjlt
    refine ⟨i, j, samples[i], samples[j], (kept_iff_idleWindow hjlt).mp hkept,
      List.getElem?_eq_getElem hi, List.getElem?_eq_getElem hjlt, ?_⟩
    rw [timeAt_eq hi, timeAt_eq hjlt]

theorem timeAt_mono {samples : List SampleFrame}
    (hsorted : samples.Pairwise fun a b => a.timeMs ≤ b.timeMs) {i j : Nat} (hij : i ≤ j)
    (hj : j < samples.length) : timeAt samples i ≤ timeAt samples j := by
  have hi : i < samples.length := lt_of_le_of_lt hij hj
  rw [timeAt_eq hi, timeAt_eq hj]
  obtain hlt | rfl := hij.lt_or_eq
  · exact List.pairwise_iff_getElem.mp hsorted i j hi hj hlt
  · exact le_rfl

/-- One turn of the loop is one step of the scan. -/
theorem idleStep_scanned {minMotion : ℚ} {samples : List SampleFrame}
    (hrational : ∀ s ∈ samples, s.Rational)
    (hsorted : samples.Pairwise fun a b => a.timeMs ≤ b.timeMs) {n start : Nat} {s : IdleScan}
    (hn : n < samples.length) (hsucc : n + 1 < samples.length)
    (h : Scanned (stillAt minMotion samples) (timeAt samples) n start s.worstMs)
    (hstart : s.runStartTime = timeAt samples start) :
    ∃ start', Scanned (stillAt minMotion samples) (timeAt samples) (n + 1) start'
        (idleStep (.finite minMotion) s ((samples[n], samples[n + 1]), n + 1)).worstMs ∧
      (idleStep (.finite minMotion) s ((samples[n], samples[n + 1]), n + 1)).runStartTime =
        timeAt samples start' := by
  have hmoves := rootReaches_stepSquared (hrational _ (List.getElem_mem hn))
    (hrational _ (List.getElem_mem hsucc)) minMotion
  unfold idleStep
  dsimp only
  by_cases hstep : ShorterStep minMotion samples[n] samples[n + 1]
  · have hstill : stillAt minMotion samples n := ⟨hsucc, hstep⟩
    have hextend := h.extend hstill fun i hi hle => timeAt_mono hsorted hi (by omega)
    rw [if_neg fun hreach => hmoves.mp hreach hstep, ← timeAt_eq hsucc, hstart]
    refine ⟨start, ?_, ?_⟩
    · split
      · next hlt => rwa [max_eq_right hlt.le] at hextend
      · next hge => rwa [max_eq_left (not_lt.mp hge)] at hextend
    · split
      · rfl
      · exact hstart
  · have hcut := h.cut fun hstill => hstep hstill.2
    rw [if_pos (hmoves.mpr hstep)]
    exact ⟨n + 1, hcut, (timeAt_eq hsucc).symm⟩

section Scan

variable {minMotion : ℚ} {first : SampleFrame} {rest : List SampleFrame}

/-- The loop after `n` turns. -/
theorem exists_scanned (minMotion : ℚ) (hrational : ∀ s ∈ first :: rest, s.Rational)
    (hsorted : (first :: rest).Pairwise fun a b => a.timeMs ≤ b.timeMs) {n : Nat}
    (hn : n ≤ rest.length) :
    ∃ start, Scanned (stillAt minMotion (first :: rest)) (timeAt (first :: rest)) n start
        (((((first :: rest).zip rest).zipIdx 1).take n).foldl (idleStep (.finite minMotion))
          ⟨0, -1, first.timeMs⟩).worstMs ∧
      (((((first :: rest).zip rest).zipIdx 1).take n).foldl (idleStep (.finite minMotion))
          ⟨0, -1, first.timeMs⟩).runStartTime = timeAt (first :: rest) start := by
  induction n with
  | zero => exact ⟨0, scanned_zero _ _, rfl⟩
  | succ n ih =>
    obtain ⟨start, hscanned, hstart⟩ := ih (by omega)
    have hlen : n < (((first :: rest).zip rest).zipIdx 1).length := by
      rw [List.length_zipIdx, List.length_zip, List.length_cons]
      omega
    have hlast : n + 1 < (first :: rest).length := by
      rw [List.length_cons]
      omega
    have hbefore : n < (first :: rest).length := by omega
    have hturn : (((first :: rest).zip rest).zipIdx 1)[n] =
        (((first :: rest)[n], (first :: rest)[n + 1]), n + 1) := by
      simp [Nat.add_comm]
    rw [List.take_succ_eq_append_getElem hlen, List.foldl_append, List.foldl_cons, List.foldl_nil,
      hturn]
    exact idleStep_scanned hrational hsorted hbefore hlast hscanned hstart

/-- The worst time of the loop is the longest of any idle window. -/
theorem worstMs_isGreatest (hrational : ∀ s ∈ first :: rest, s.Rational)
    (hsorted : (first :: rest).Pairwise fun a b => a.timeMs ≤ b.timeMs) :
    IsGreatest (idleTimes minMotion (first :: rest))
      (idleScan (.finite minMotion) first rest).worstMs := by
  obtain ⟨start, hscanned, -⟩ := exists_scanned minMotion hrational hsorted le_rfl
  have hall : (((first :: rest).zip rest).zipIdx 1).take rest.length =
      ((first :: rest).zip rest).zipIdx 1 := by
    refine List.take_of_length_le ?_
    rw [List.length_zipIdx, List.length_zip]
    exact min_le_right _ _
  rw [hall] at hscanned
  rw [idleTimes_eq_spans (List.length_cons : (first :: rest).length = rest.length + 1)]
  exact hscanned.best

end Scan

/-- The verdict on a worst time. -/
def idleSeverity (warnMs rejectMs worstMs : Int) : Option Severity :=
  if rejectMs ≤ worstMs then some .reject else if warnMs ≤ worstMs then some .warn else none

theorem idleVerdict_spec (warnMs rejectMs : Int) (s : IdleScan) :
    (idleVerdict warnMs rejectMs s).severity = idleSeverity warnMs rejectMs s.worstMs ∧
      item (idleVerdict warnMs rejectMs s).evidence "worst_idle_ms" = .int s.worstMs := by
  unfold idleVerdict idleSeverity
  split
  · exact ⟨rfl, rfl⟩
  · split
    · exact ⟨rfl, rfl⟩
    · exact ⟨rfl, rfl⟩

/-- The rule reports the longest idle window, and decides by it. -/
theorem zeroMotion_exact {py : RigPython} {errorText : PyError → String} {t : ReplayTelemetry}
    {thresholds : Thresholds} {warnMs rejectMs : Int} {minMotion : ℚ}
    (hwarn : thresholdInt py errorText thresholds "warn_idle_ms" = .ok warnMs)
    (hreject : thresholdInt py errorText thresholds "reject_idle_ms" = .ok rejectMs)
    (hmotion : thresholdFloat py errorText thresholds "min_motion_m_per_sample" =
      .ok (.finite minMotion))
    (hle : warnMs ≤ rejectMs) (hne : t.samples ≠ []) (hrational : ∀ s ∈ t.samples, s.Rational)
    (hsorted : t.samples.Pairwise fun a b => a.timeMs ≤ b.timeMs) :
    ∃ result worst, (zeroMotionRule py errorText).evaluate t thresholds = .ok result ∧
      IsGreatest (idleTimes minMotion t.samples) worst ∧
      item result.evidence "worst_idle_ms" = .int worst ∧
      result.severity = idleSeverity warnMs rejectMs worst := by
  cases hsamples : t.samples with
  | nil => exact absurd hsamples hne
  | cons first rest =>
    rw [hsamples] at hrational hsorted
    obtain ⟨hseverity, hevidence⟩ :=
      idleVerdict_spec warnMs rejectMs (idleScan (.finite minMotion) first rest)
    refine ⟨idleVerdict warnMs rejectMs (idleScan (.finite minMotion) first rest),
      (idleScan (.finite minMotion) first rest).worstMs, ?_,
      worstMs_isGreatest hrational hsorted, hevidence, hseverity⟩
    unfold zeroMotionRule
    dsimp only
    rw [hwarn, hreject, hmotion, hsamples]
    show (if rejectMs < warnMs then _ else _) = _
    rw [if_neg (not_lt.mpr hle)]

/-- A car that stands at the start for twelve seconds, and one that moves off. -/
def startIdler : ReplayTelemetry where
  schemaVersion := 1
  sourceReplayId := "r1"
  sampleRateHz := 1
  samples := [⟨0, .finite 0, .finite 9, .finite 0, .finite 0, .finite 0, .finite 0⟩,
    ⟨12000, .finite 0, .finite 9, .finite 0, .finite 0, .finite 0, .finite 0⟩,
    ⟨13000, .finite 8, .finite 9, .finite 0, .finite 0, .finite 0, .finite 0⟩]
  playerLogin := none
  finishTimeMs := none
  checkpointSampleIndices := []
  restartSampleIndices := []
  extra := []

theorem zeroMotion_exact_startIdler : ∃ result worst,
    (zeroMotionRule textlessPython fun _ => "").evaluate startIdler
        (zeroMotionRule textlessPython fun _ => "").defaultThresholds = .ok result ∧
      IsGreatest (idleTimes (5 / 100) startIdler.samples) worst ∧
      item result.evidence "worst_idle_ms" = .int worst ∧
      result.severity = idleSeverity 3000 10000 worst := by
  refine zeroMotion_exact rfl rfl rfl (by decide) (by decide) ?_ (by decide)
  intro s hs
  simp only [startIdler, List.mem_cons, List.not_mem_nil, or_false] at hs
  obtain rfl | rfl | rfl := hs
  · exact ⟨rfl, rfl, rfl⟩
  · exact ⟨rfl, rfl, rfl⟩
  · exact ⟨rfl, rfl, rfl⟩

end TraxMania.Replay
