import TraxMania.Driven.Coverage
import TraxMania.Lib.Runs
import Mathlib.Algebra.Group.Prod
import Mathlib.Algebra.Order.BigOperators.Group.List
import Mathlib.Algebra.Order.Ring.Rat

/-
  The two loops of the coverage of one capture, variable by variable, and what their counters add
  up to: each grounded sample is counted once, the terrain cells sum to the terrain totals, and the
  longest gap is the first of the longest runs of unmatched samples.
-/

namespace TraxMania.Driven.Coverage

open TraxMania.Grid Lib Lib.LongestRun

/-! ## The loops -/

/-- The variables of the first loop. -/
structure FirstPass (σ : Type) where
  covered : List Bool
  srcGrid : Nat
  srcFree : Nat
  srcItem : Nat
  srcBaked : Nat
  grounded : Nat
  airborne : Nat
  terrainSamples : Nat
  terrain : Dict Cell (TerrainRec σ)
  unmatchedN : Nat
  unmatchedM : σ
  unmatchedMs : Int
  terrainM : σ
  terrainMs : Int

section Loops

variable {σ : Type} [Metres σ] (math : CoverageMath σ) (index : CandidateIndex σ)
  (itemCells bakedCells : Dict Cell Nat) (samples : List (Motion σ))

/-- The sample before the one at `i`. -/
def previous (i : Nat) : Option (Motion σ) := if i = 0 then none else samples[i - 1]?

/-- `on_ground` of both loops. -/
def onGroundAt (cell : Cell) (y : σ) : Bool :=
  cell.y = groundRow && decide (fabs (y - groundAbsYM) ≤ terrainAbsYToleranceM)

/-- The first loop before its first turn. -/
def FirstPass.start : FirstPass σ :=
  ⟨[], 0, 0, 0, 0, 0, 0, 0, Dict.empty, 0, const 0, 0, const 0, 0⟩

/-- One turn of the first loop, at the sample `s` with index `i`. -/
def coverSample (st : FirstPass σ) (i : Nat) (s : Motion σ) : FirstPass σ :=
  let (stepM, stepMs) := stepFrom math.toMath (previous samples i) s
  if airborneAt (samples.map Motion.toSample) i then
    { st with
      covered := st.covered ++ [false]
      airborne := st.airborne + 1 }
  else
    let g := rowTolerance.any fun d => gridHit index s.pos d
    let f := if !g then freeHit math.toMath index s.pos else false
    let cell := toCell s.pos
    let it := (!g && !f) && (itemCells.get? cell).isSome
    let bk := (!g && !f && !it) && (bakedCells.get? cell).isSome
    let covered := g || f || it || bk
    let st := { st with
      grounded := st.grounded + 1
      covered := st.covered ++ [covered]
      srcGrid := st.srcGrid + g.toNat
      srcFree := st.srcFree + f.toNat
      srcItem := st.srcItem + it.toNat
      srcBaked := st.srcBaked + bk.toNat }
    if covered then st
    else if onGroundAt cell s.pos.y then
      { st with
        terrainSamples := st.terrainSamples + 1
        terrainM := st.terrainM + stepM
        terrainMs := st.terrainMs + max 0 stepMs
        terrain := st.terrain.upsert cell ((Mark.mk i s stepM stepMs false none).addTo math) }
    else
      { st with
        unmatchedN := st.unmatchedN + 1
        unmatchedM := st.unmatchedM + stepM
        unmatchedMs := st.unmatchedMs + max 0 stepMs }

/-- The first loop. -/
def firstPass : FirstPass σ :=
  samples.zipIdx.foldl
    (fun st si => coverSample math index itemCells bakedCells samples st si.2 si.1) FirstPass.start

/-- `cur_n`, `cur_m` and `cur_ms` after one more unmatched sample. -/
def longerGap (cur : Gap σ) (i : Nat) (sample : Motion σ) : Gap σ :=
  match previous samples i with
  | none => ⟨cur.samples + 1, cur.m, cur.ms⟩
  | some p => ⟨cur.samples + 1, cur.m + math.dist sample.pos p.pos,
      cur.ms + max 0 (intOf sample.timeMs - intOf p.timeMs)⟩

/-- One turn of the second loop: `best_n`, `best_m`, `best_ms` and the open gap. -/
def gapSample (covered : List Bool) (s : Gap σ × Gap σ) (i : Nat) (sample : Motion σ) :
    Gap σ × Gap σ :=
  let onGround := onGroundAt (toCell sample.pos) sample.pos.y
  let bad := !airborneAt (samples.map Motion.toSample) i && !(covered[i]?.getD false) && !onGround
  if bad then
    let cur := longerGap math samples s.2 i sample
    (if s.1.samples < cur.samples then cur else s.1, cur)
  else (s.1, Gap.none)

/-- The second loop. -/
def secondPass (covered : List Bool) : Gap σ :=
  (samples.zipIdx.foldl (fun s si => gapSample math samples covered s si.2 si.1)
    (Gap.none, Gap.none)).1

/-- `covered_any`. -/
def coveredAny (covered : List Bool) : Nat :=
  (List.range samples.length).countP fun i =>
    covered[i]?.getD false && !airborneAt (samples.map Motion.toSample) i

end Loops

section Result

variable {σ : Type} [Metres σ] (math : CoverageMath σ) (catalogue : BlockCatalogue)
  (input : CoverageInput σ)

/-- `index`. -/
def CoverageInput.index : CandidateIndex σ :=
  CandidateIndex.init math.toMath catalogue input.freeAnchor input.freePadM input.placements

/-- `compute_coverage`, with the variables of its loops. -/
def coverageOf : Metrics σ × Dict Cell (TerrainCell σ) :=
  let first := firstPass math (input.index math catalogue) input.itemCells input.bakedCells
    input.samples
  let gap := secondPass math input.samples first.covered
  let atCheckpoints := input.checkpointIndices.flatMap
    (checkpointMarks (input.marks math catalogue) input.checkpointWindow)
  let any := coveredAny input.samples first.covered
  let status := capture input.anchored input.exitReason first.grounded
  let route := surface math (share any first.grounded) (share first.terrainSamples first.grounded)
  let valid := status.1 = .valid
  ({ samplesTotal := input.samples.length
     samplesAirborne := first.airborne
     samplesGrounded := first.grounded
     coveredGrid := first.srcGrid
     coveredFree := first.srcFree
     coveredItem := first.srcItem
     coveredBaked := first.srcBaked
     coveredAny := any
     checkpointSamples := atCheckpoints.length
     checkpointCovered := atCheckpoints.countP Mark.covered
     unmatchedSamples := first.unmatchedN
     unmatchedDistanceM := first.unmatchedM
     unmatchedDurationMs := first.unmatchedMs
     longestGapSamples := gap.samples
     longestGapM := gap.m
     longestGapMs := gap.ms
     terrainGroundSamples := first.terrainSamples
     terrainGroundDistanceM := first.terrainM
     terrainGroundDurationMs := first.terrainMs
     captureStatus := status.1
     captureFailureReason := status.2
     routeSurfaceClass := if valid then some route.1 else none
     routeSurfaceConfidence :=
       if valid then some (math.round4 (max (const 0) (min (const 1) route.2.1))) else none
     routeSurfaceReason := if valid then some route.2.2 else none },
    first.terrain.mapVal (TerrainRec.close math))

end Result

/-! ## The first loop over marks -/

section FirstLoop

variable {σ : Type} [Metres σ] (math : CoverageMath σ) (index : CandidateIndex σ)
  (itemCells bakedCells : Dict Cell Nat) (samples : List (Motion σ))

/-- The mark of one sample. -/
def markAt (i : Nat) (s : Motion σ) : Mark σ :=
  let step := stepFrom math.toMath (previous samples i) s
  let air := airborneAt (samples.map Motion.toSample) i
  ⟨i, s, step.1, step.2, air,
    if air then none else sourceAt math.toMath index itemCells bakedCells s.pos⟩

theorem filterMap_range {α β : Type} (xs : List α) (g : Nat → α → β) :
    ((List.range xs.length).filterMap fun i => (xs[i]?).map (g i)) =
      xs.zipIdx.map fun xi => g xi.2 xi.1 := by
  induction xs using List.reverseRecOn with
  | nil => rfl
  | append_singleton xs a ih =>
    have hold : ((List.range xs.length).filterMap fun i => ((xs ++ [a])[i]?).map (g i)) =
        (List.range xs.length).filterMap fun i => (xs[i]?).map (g i) := by
      refine List.filterMap_congr fun i hi => ?_
      rw [List.getElem?_append_left (List.mem_range.mp hi)]
    rw [List.length_append, List.length_singleton, List.range_succ, List.filterMap_append, hold, ih,
      List.zipIdx_append, List.map_append]
    simp

theorem marks_eq : marks math.toMath index itemCells bakedCells samples =
    samples.zipIdx.map fun si => markAt math index itemCells bakedCells samples si.2 si.1 :=
  filterMap_range samples (markAt math index itemCells bakedCells samples)

/-- What the first loop has counted after the marks `ms`. -/
def countsOf (ms : List (Mark σ)) : FirstPass σ where
  covered := ms.map Mark.covered
  srcGrid := countSource ms .grid
  srcFree := countSource ms .free
  srcItem := countSource ms .item
  srcBaked := countSource ms .baked
  grounded := ms.countP fun m => !m.air
  airborne := ms.countP Mark.air
  terrainSamples := ms.countP Mark.terrain
  terrain := terrainRecs math ms
  unmatchedN := ms.countP Mark.unmatched
  unmatchedM := distanceM (ms.filter Mark.unmatched)
  unmatchedMs := durationMs (ms.filter Mark.unmatched)
  terrainM := distanceM (ms.filter Mark.terrain)
  terrainMs := durationMs (ms.filter Mark.terrain)

theorem foldl_filter_concat {α β : Type} (p : α → Bool) (f : β → α → β) (init : β) (xs : List α)
    (a : α) : ((xs ++ [a]).filter p).foldl f init =
      if p a then f ((xs.filter p).foldl f init) a else (xs.filter p).foldl f init := by
  rw [List.filter_append, List.foldl_append]
  by_cases ha : p a = true
  · rw [if_pos ha, List.filter_cons_of_pos ha]
    rfl
  · rw [if_neg ha, List.filter_cons_of_neg ha]
    rfl

theorem countsOf_concat (ms : List (Mark σ)) (m : Mark σ) :
    countsOf math (ms ++ [m]) =
      { covered := (countsOf math ms).covered ++ [m.covered]
        srcGrid := (countsOf math ms).srcGrid + if m.source = some .grid then 1 else 0
        srcFree := (countsOf math ms).srcFree + if m.source = some .free then 1 else 0
        srcItem := (countsOf math ms).srcItem + if m.source = some .item then 1 else 0
        srcBaked := (countsOf math ms).srcBaked + if m.source = some .baked then 1 else 0
        grounded := (countsOf math ms).grounded + if !m.air then 1 else 0
        airborne := (countsOf math ms).airborne + if m.air then 1 else 0
        terrainSamples := (countsOf math ms).terrainSamples + if m.terrain then 1 else 0
        terrain := if m.terrain then (countsOf math ms).terrain.upsert m.cell (m.addTo math)
          else (countsOf math ms).terrain
        unmatchedN := (countsOf math ms).unmatchedN + if m.unmatched then 1 else 0
        unmatchedM := if m.unmatched then (countsOf math ms).unmatchedM + m.stepM
          else (countsOf math ms).unmatchedM
        unmatchedMs := if m.unmatched then (countsOf math ms).unmatchedMs + max 0 m.stepMs
          else (countsOf math ms).unmatchedMs
        terrainM := if m.terrain then (countsOf math ms).terrainM + m.stepM
          else (countsOf math ms).terrainM
        terrainMs := if m.terrain then (countsOf math ms).terrainMs + max 0 m.stepMs
          else (countsOf math ms).terrainMs } := by
  unfold countsOf countSource terrainRecs distanceM durationMs
  simp only [List.map_append, List.map_cons, List.map_nil, List.countP_append,
    List.countP_singleton, foldl_filter_concat, decide_eq_true_eq]

theorem onGround_eq (m : Mark σ) : m.onGround = onGroundAt m.cell m.sample.pos.y := rfl

/-- One turn counts one mark. -/
theorem coverSample_countsOf (ms : List (Mark σ)) (i : Nat) (s : Motion σ) :
    coverSample math index itemCells bakedCells samples (countsOf math ms) i s =
      countsOf math (ms ++ [markAt math index itemCells bakedCells samples i s]) := by
  obtain ⟨stepM, stepMs, hstep⟩ : ∃ a b, stepFrom math.toMath (previous samples i) s = (a, b) :=
    ⟨_, _, rfl⟩
  rw [countsOf_concat]
  unfold coverSample markAt sourceAt
  rw [hstep]
  dsimp only
  by_cases hair : airborneAt (samples.map Motion.toSample) i = true
  · simp [hair, Mark.covered, Mark.terrain, Mark.unmatched]
  · rw [if_neg hair]
    simp only [hair, Bool.false_eq_true, if_false]
    generalize rowTolerance.any (fun d => gridHit index s.pos d) = g
    generalize freeHit math.toMath index s.pos = f
    generalize (itemCells.get? (toCell s.pos)).isSome = it
    generalize (bakedCells.get? (toCell s.pos)).isSome = bk
    -- The first source that is met takes the sample; without one the ground plane decides.
    cases g
    · cases f
      · cases it
        · cases bk
          · by_cases hground : onGroundAt (toCell s.pos) s.pos.y = true
            · simp [Mark.covered, Mark.terrain, Mark.unmatched, Mark.cell, onGround_eq, hground]
            · simp [Mark.covered, Mark.terrain, Mark.unmatched, Mark.cell, onGround_eq, hground]
          · simp [Mark.covered, Mark.terrain, Mark.unmatched]
        · simp [Mark.covered, Mark.terrain, Mark.unmatched]
      · simp [Mark.covered, Mark.terrain, Mark.unmatched]
    · simp [Mark.covered, Mark.terrain, Mark.unmatched]

/-- The first loop counts the marks. -/
theorem firstPass_eq : firstPass math index itemCells bakedCells samples =
    countsOf math (marks math.toMath index itemCells bakedCells samples) := by
  have hrun : ∀ (turns : List (Motion σ × Nat)) (ms : List (Mark σ)),
      turns.foldl (fun st si => coverSample math index itemCells bakedCells samples st si.2 si.1)
          (countsOf math ms) =
        countsOf math (ms ++ turns.map fun si =>
          markAt math index itemCells bakedCells samples si.2 si.1) := by
    intro turns
    induction turns with
    | nil =>
      intro ms
      rw [List.map_nil, List.append_nil]
      rfl
    | cons si turns ih =>
      intro ms
      rw [List.foldl_cons, coverSample_countsOf, ih, List.map_cons, List.append_assoc]
      rfl
  rw [marks_eq]
  exact hrun samples.zipIdx []

theorem getElem?_covered {si : Motion σ × Nat} (hsi : si ∈ samples.zipIdx) :
    ((marks math.toMath index itemCells bakedCells samples).map Mark.covered)[si.2]? =
      some (markAt math index itemCells bakedCells samples si.2 si.1).covered := by
  rw [marks_eq, List.getElem?_map, List.getElem?_map, List.getElem?_zipIdx]
  rw [List.mem_zipIdx_iff_getElem?] at hsi
  rw [hsi]
  simp

theorem coveredAny_eq :
    coveredAny samples
        ((marks math.toMath index itemCells bakedCells samples).map Mark.covered) =
      (marks math.toMath index itemCells bakedCells samples).countP fun m => m.covered && !m.air := by
  have hrange : List.range samples.length = samples.zipIdx.map Prod.snd := by
    rw [List.zipIdx_map_snd, List.range_eq_range']
  unfold coveredAny
  rw [hrange, List.countP_map]
  rw [marks_eq, List.countP_map, ← marks_eq]
  refine List.countP_congr fun si hsi => ?_
  simp only [Function.comp_apply]
  rw [getElem?_covered math index itemCells bakedCells samples hsi, Option.getD_some]
  rfl

end FirstLoop

/-! ## The second loop over marks -/

section SecondLoop

variable (math : CoverageMath ℚ) (index : CandidateIndex ℚ) (itemCells bakedCells : Dict Cell Nat)
  (samples : List (Motion ℚ))

/-- A gap as a measured run. -/
def Gap.measured (g : Gap ℚ) : Measured (ℚ × Int) := ⟨g.samples, (g.m, g.ms)⟩

/-- The steps of a mark. -/
def Mark.steps (m : Mark ℚ) : ℚ × Int := (m.stepM, max 0 m.stepMs)

theorem longerGap_measured (cur : Gap ℚ) {i : Nat} {sample : Motion ℚ} {m : Mark ℚ}
    (hm : m = markAt math index itemCells bakedCells samples i sample) :
    (longerGap math samples cur i sample).measured =
      ⟨cur.samples + 1, (cur.m, cur.ms) + m.steps⟩ := by
  subst hm
  unfold longerGap Mark.steps markAt stepFrom Gap.measured
  cases previous samples i with
  | none =>
    have hm : cur.m = cur.m + 0 := (add_zero _).symm
    have hms : cur.ms = cur.ms + max 0 0 := by omega
    exact congrArg (Measured.mk _) (Prod.ext hm hms)
  | some p => rfl

/-- One turn is one entry of the pass for the longest run. -/
theorem gapSample_measured {covered : List Bool} {s : Gap ℚ × Gap ℚ} {i : Nat} {sample : Motion ℚ}
    {m : Mark ℚ} (hm : m = markAt math index itemCells bakedCells samples i sample)
    (hcovered : covered[i]? = some m.covered) :
    (gapSample math samples covered s i sample).map Gap.measured Gap.measured =
      LongestRun.step Mark.unmatched Mark.steps (s.map Gap.measured Gap.measured) m := by
  have hbad : (!airborneAt (samples.map Motion.toSample) i && !(covered[i]?.getD false) &&
      !onGroundAt (toCell sample.pos) sample.pos.y) = m.unmatched := by
    rw [hcovered]
    subst hm
    rfl
  unfold gapSample LongestRun.step
  dsimp only
  rw [hbad]
  by_cases hun : m.unmatched = true
  · rw [if_pos hun, if_pos hun]
    have hlonger := longerGap_measured math index itemCells bakedCells samples s.2 hm
    generalize longerGap math samples s.2 i sample = cur at hlonger ⊢
    have hlength : cur.samples = s.2.samples + 1 := congrArg Measured.length hlonger
    show ((if s.1.samples < cur.samples then cur else s.1).measured, cur.measured) =
      (if s.1.samples < s.2.samples + 1 then
          (⟨s.2.samples + 1, (s.2.m, s.2.ms) + m.steps⟩ : Measured (ℚ × Int))
        else s.1.measured, ⟨s.2.samples + 1, (s.2.m, s.2.ms) + m.steps⟩)
    rw [← hlonger, hlength, apply_ite Gap.measured]
  · rw [if_neg hun, if_neg hun]
    rfl

/-- The second loop is the pass for the longest run of unmatched marks. -/
theorem secondPass_measured :
    (secondPass math samples
        ((marks math.toMath index itemCells bakedCells samples).map Mark.covered)).measured =
      ((marks math.toMath index itemCells bakedCells samples).foldl
        (LongestRun.step Mark.unmatched Mark.steps) (⟨0, 0⟩, ⟨0, 0⟩)).1 := by
  have hrun : ∀ (turns : List (Motion ℚ × Nat)) (covered : List Bool) (s : Gap ℚ × Gap ℚ),
      (∀ si ∈ turns, covered[si.2]? =
        some (markAt math index itemCells bakedCells samples si.2 si.1).covered) →
      (turns.foldl (fun s si => gapSample math samples covered s si.2 si.1) s).map
          Gap.measured Gap.measured =
        (turns.map fun si => markAt math index itemCells bakedCells samples si.2 si.1).foldl
          (LongestRun.step Mark.unmatched Mark.steps) (s.map Gap.measured Gap.measured) := by
    intro turns covered
    induction turns with
    | nil => exact fun s _ => rfl
    | cons si turns ih =>
      intro s h
      rw [List.foldl_cons, List.map_cons, List.foldl_cons,
        ih _ fun si' hsi' => h si' (List.mem_cons_of_mem si hsi'),
        gapSample_measured math index itemCells bakedCells samples rfl (h si List.mem_cons_self)]
  have hfold := hrun samples.zipIdx _ (Gap.none, Gap.none)
    fun si hsi => getElem?_covered math index itemCells bakedCells samples hsi
  rw [← marks_eq] at hfold
  exact congrArg Prod.fst hfold

end SecondLoop

theorem weight_steps (ms : List (Mark ℚ)) (i n : Nat) : weight Mark.steps ms i n =
    (weight Mark.stepM ms i n, weight (fun m => max 0 m.stepMs) ms i n) := by
  unfold weight
  induction (ms.drop i).take n with
  | nil => rfl
  | cons m rest ih =>
    rw [List.map_cons, List.sum_cons, ih]
    rfl

/-! ## What the counters add up to -/

section Sums

theorem foldl_add {α M : Type} [AddMonoid M] (f : α → M) (xs : List α) (start : M) :
    xs.foldl (fun total x => total + f x) start = start + (xs.map f).sum := by
  induction xs generalizing start with
  | nil => exact (add_zero start).symm
  | cons x xs ih => rw [List.foldl_cons, ih, List.map_cons, List.sum_cons, add_assoc]

theorem distanceM_eq (ms : List (Mark ℚ)) : distanceM ms = (ms.map Mark.stepM).sum :=
  (foldl_add Mark.stepM ms 0).trans (zero_add _)

theorem durationMs_eq {σ : Type} (ms : List (Mark σ)) :
    durationMs ms = (ms.map fun m => max 0 m.stepMs).sum :=
  (foldl_add (fun m : Mark σ => max 0 m.stepMs) ms 0).trans (zero_add _)

/-- What is in exactly one of several classes is counted class by class. -/
theorem countP_classes {α : Type} {p : α → Bool} {classes : List (α → Bool)} {xs : List α}
    (h : ∀ x ∈ xs, (p x).toNat = (classes.map fun q => (q x).toNat).sum) :
    xs.countP p = (classes.map fun q => xs.countP q).sum := by
  induction xs with
  | nil =>
    simp only [List.countP_nil]
    rw [List.map_const', List.sum_replicate_nat, Nat.mul_zero]
  | cons x xs ih =>
    have hone : ∀ q : α → Bool, (x :: xs).countP q = xs.countP q + (q x).toNat := by
      intro q
      rw [List.countP_cons]
      cases q x <;> rfl
    simp only [hone]
    rw [List.sum_map_add, ih fun y hy => h y (List.mem_cons_of_mem x hy), h x List.mem_cons_self]

variable {σ : Type} (ms : List (Mark σ))

/-- Every sample is airborne or grounded. -/
theorem length_eq_air : ms.length = ms.countP Mark.air + ms.countP fun m => !m.air := by
  have hclasses : ∀ m ∈ ms, (true).toNat = (([Mark.air, fun m => !m.air] :
      List (Mark σ → Bool)).map fun q => (q m).toNat).sum := by
    intro m _
    simp only [List.map_cons, List.map_nil]
    cases m.air <;> rfl
  have h := countP_classes hclasses
  rw [List.countP_true] at h
  simpa using h

variable [Metres σ]

/-- Every grounded sample is covered, on the terrain or unmatched. -/
theorem grounded_eq :
    ms.countP (fun m => !m.air) =
      ms.countP (fun m => m.covered && !m.air) + ms.countP Mark.terrain +
        ms.countP Mark.unmatched := by
  have hclasses : ∀ m ∈ ms, (!m.air).toNat = (([fun m => m.covered && !m.air, Mark.terrain,
      Mark.unmatched] : List (Mark σ → Bool)).map fun q => (q m).toNat).sum := by
    intro m _
    simp only [List.map_cons, List.map_nil, Mark.terrain, Mark.unmatched]
    cases m.air <;> cases m.covered <;> cases m.onGround <;> rfl
  have h := countP_classes hclasses
  simp only [List.map_cons, List.map_nil, List.sum_cons, List.sum_nil] at h
  omega

omit [Metres σ] in
/-- Every covered sample has one of the four sources. -/
theorem coveredAny_eq_sources (hair : ∀ m ∈ ms, m.air = true → m.source = none) :
    ms.countP (fun m => m.covered && !m.air) =
      countSource ms .grid + countSource ms .free + countSource ms .item +
        countSource ms .baked := by
  have hclasses : ∀ m ∈ ms, (m.covered && !m.air).toNat =
      (([Source.grid, .free, .item, .baked].map fun (source : Source) (m : Mark σ) =>
        decide (m.source = some source)).map fun q => (q m).toNat).sum := by
    intro m hm
    have hnone := hair m hm
    simp only [List.map_cons, List.map_nil, Mark.covered]
    cases hsource : m.source with
    | none => rfl
    | some source =>
      have hground : m.air = false := by
        rw [hsource] at hnone
        simpa using hnone
      rw [hground]
      cases source <;> rfl
  have h := countP_classes hclasses
  simp only [List.map_cons, List.map_nil, List.sum_cons, List.sum_nil] at h
  unfold countSource
  omega

end Sums

/-! ## Terrain cells -/

section Cells

variable {σ : Type} [Metres σ] (math : CoverageMath σ)

/-- `i` is the index of the earliest terrain sample in the cell. -/
def IsEarliest (ms : List (Mark σ)) (c : Cell) (i : Nat) : Prop :=
  (∃ m ∈ ms, m.terrain = true ∧ m.cell = c ∧ m.index = i) ∧
    ∀ m ∈ ms, m.terrain = true → m.cell = c → i ≤ m.index

/-- Later samples leave the first index of a cell as it is. -/
theorem firstSampleIndex_foldl (group : List (Mark σ)) (r : TerrainRec σ) :
    ∃ r', group.foldl (fun old m => some (m.addTo math old)) (some r) = some r' ∧
      r'.firstSampleIndex = r.firstSampleIndex := by
  induction group generalizing r with
  | nil => exact ⟨r, rfl, rfl⟩
  | cons m group ih =>
    obtain ⟨r', hr', hfirst⟩ := ih (m.addTo math (some r))
    exact ⟨r', hr', hfirst⟩

/-- A cell keeps the index of the earliest of its samples. -/
theorem first_of_terrainRecs {ms : List (Mark σ)} (hsorted : ms.Pairwise fun a b => a.index < b.index)
    {kv : Cell × TerrainRec σ} (hkv : kv ∈ (terrainRecs math ms).items) :
    IsEarliest ms kv.1 kv.2.firstSampleIndex := by
  have hget := Dict.get?_eq_some hkv
  unfold terrainRecs at hget
  rw [Dict.get?_foldl_upsert] at hget
  obtain ⟨group, hgroup⟩ : ∃ group, group =
      (ms.filter Mark.terrain).filter fun m => decide (m.cell = kv.1) := ⟨_, rfl⟩
  have hmem : ∀ m, m ∈ group ↔ m ∈ ms ∧ m.terrain = true ∧ m.cell = kv.1 := by
    intro m
    rw [hgroup, List.mem_filter, List.mem_filter, decide_eq_true_iff, and_assoc]
  have hpair : group.Pairwise fun a b => a.index < b.index := by
    rw [hgroup]
    exact (hsorted.filter _).filter _
  rw [← hgroup] at hget
  cases group with
  | nil => cases hget
  | cons m rest =>
    obtain ⟨r, hr, hfirst⟩ := firstSampleIndex_foldl math rest (m.addTo math none)
    have hkv2 : r = kv.2 := Option.some.inj (hr.symm.trans hget)
    have hindex : kv.2.firstSampleIndex = m.index := by
      rw [← hkv2, hfirst]
      rfl
    obtain ⟨hms, hterrain, hcell⟩ := (hmem m).mp List.mem_cons_self
    rw [hindex]
    refine ⟨⟨m, hms, hterrain, hcell, rfl⟩, fun m' hms' hterrain' hcell' => ?_⟩
    rcases List.mem_cons.mp ((hmem m').mpr ⟨hms', hterrain', hcell'⟩) with rfl | hrest
    · exact Nat.le_refl _
    · exact ((List.pairwise_cons.mp hpair).1 m' hrest).le

theorem marks_sorted (index : CandidateIndex σ) (itemCells bakedCells : Dict Cell Nat)
    (samples : List (Motion σ)) :
    (marks math.toMath index itemCells bakedCells samples).Pairwise
      fun a b => a.index < b.index := by
  have hindices : (marks math.toMath index itemCells bakedCells samples).map Mark.index =
      List.range samples.length := by
    rw [marks_eq, List.map_map, List.range_eq_range', ← List.zipIdx_map_snd]
    rfl
  have hpair := List.pairwise_lt_range (n := samples.length)
  rw [← hindices] at hpair
  exact List.pairwise_map.mp hpair

end Cells

/-- The durations and the distances of the cells sum to the terrain totals. -/
theorem terrainRecs_sums (math : CoverageMath ℚ) (ms : List (Mark ℚ)) :
    ((terrainRecs math ms).items.map fun kv => kv.2.durationMs).sum =
        durationMs (ms.filter Mark.terrain) ∧
      ((terrainRecs math ms).items.map fun kv => kv.2.distanceM).sum =
        distanceM (ms.filter Mark.terrain) := by
  have hms : ∀ (m : Mark ℚ) (old : Option (TerrainRec ℚ)), (m.addTo math old).durationMs =
      (old.map TerrainRec.durationMs).getD 0 + max 0 m.stepMs := by
    intro m old
    cases old <;> rfl
  have hm : ∀ (m : Mark ℚ) (old : Option (TerrainRec ℚ)), (m.addTo math old).distanceM =
      (old.map TerrainRec.distanceM).getD 0 + m.stepM := by
    intro m old
    cases old <;> rfl
  unfold terrainRecs
  rw [durationMs_eq, distanceM_eq, Dict.sum_foldl _ hms, Dict.sum_foldl _ hm]
  exact ⟨zero_add _, zero_add _⟩

/-! ## Conservation -/

/-- The metrics and the terrain cells account for every one of the samples `ms`. -/
structure Conserves (ms : List (Mark ℚ)) (metrics : Metrics ℚ)
    (cells : Dict Cell (TerrainCell ℚ)) : Prop where
  total : metrics.samplesTotal = ms.length
  airborne : metrics.samplesAirborne + metrics.samplesGrounded = metrics.samplesTotal
  grounded : metrics.samplesGrounded =
    metrics.coveredAny + metrics.terrainGroundSamples + metrics.unmatchedSamples
  covered : metrics.coveredAny =
    metrics.coveredGrid + metrics.coveredFree + metrics.coveredItem + metrics.coveredBaked
  cellSamples : (cells.items.map fun kv => kv.2.sampleCount).sum = metrics.terrainGroundSamples
  cellMs : (cells.items.map fun kv => kv.2.durationMs).sum = metrics.terrainGroundDurationMs
  cellM : (cells.items.map fun kv => kv.2.distanceM).sum = metrics.terrainGroundDistanceM
  first : ∀ kv ∈ cells.items, IsEarliest ms kv.1 kv.2.firstSampleIndex
  gap : ∃ i, IsFirstLongest Mark.unmatched ms i metrics.longestGapSamples ∧
    metrics.longestGapM = weight Mark.stepM ms i metrics.longestGapSamples ∧
    metrics.longestGapMs = weight (fun m => max 0 m.stepMs) ms i metrics.longestGapSamples
  gapWithin : metrics.longestGapSamples ≤ metrics.unmatchedSamples ∧
    metrics.longestGapM ≤ metrics.unmatchedDistanceM ∧
    metrics.longestGapMs ≤ metrics.unmatchedDurationMs
  surface : metrics.routeSurfaceClass = none ↔ metrics.captureStatus ≠ .valid

/-- A run weighs at most as much as all entries with its property. -/
theorem weight_le_filter {α M : Type} [AddCommMonoid M] [PartialOrder M] [IsOrderedAddMonoid M]
    {p : α → Bool} {w : α → M} {xs : List α} {i n : Nat} (hrun : IsRun p xs i n)
    (hw : ∀ x ∈ xs, 0 ≤ w x) : weight w xs i n ≤ ((xs.filter p).map w).sum := by
  refine (hrun.sublist.map w).sum_le_sum fun v hv => ?_
  obtain ⟨x, hx, rfl⟩ := List.mem_map.mp hv
  exact hw x (List.mem_of_mem_filter hx)

theorem length_le_filter {α : Type} {p : α → Bool} {xs : List α} {i n : Nat}
    (hrun : IsRun p xs i n) : n ≤ xs.countP p := by
  have hlength := hrun.sublist.length_le
  have hend := hrun.1
  rw [List.length_take, List.length_drop, ← List.countP_eq_length_filter] at hlength
  omega

section Main

variable (math : CoverageMath ℚ) (catalogue : BlockCatalogue) (input : CoverageInput ℚ)

/-- The marks of an input, sample by sample. -/
theorem inputMarks_eq : input.marks math catalogue = input.samples.zipIdx.map fun si =>
    markAt math (input.index math catalogue) input.itemCells input.bakedCells input.samples
      si.2 si.1 :=
  marks_eq math (input.index math catalogue) input.itemCells input.bakedCells input.samples

theorem length_marks : (input.marks math catalogue).length = input.samples.length := by
  rw [inputMarks_eq, List.length_map, List.length_zipIdx]

theorem stepM_nonneg (hdist : ∀ p q, 0 ≤ math.dist p q) {m : Mark ℚ}
    (hm : m ∈ input.marks math catalogue) : 0 ≤ m.stepM := by
  rw [inputMarks_eq, List.mem_map] at hm
  obtain ⟨si, -, rfl⟩ := hm
  unfold markAt stepFrom
  cases previous input.samples si.2 with
  | none => exact le_refl (0 : ℚ)
  | some p => exact hdist _ _

theorem source_of_air {m : Mark ℚ} (hm : m ∈ input.marks math catalogue) (hair : m.air = true) :
    m.source = none := by
  rw [inputMarks_eq, List.mem_map] at hm
  obtain ⟨si, -, rfl⟩ := hm
  exact if_pos hair

/-- The gap that the second loop returns. -/
theorem secondPass_isFirstLongest {covered : List Bool}
    (hcovered : covered = (input.marks math catalogue).map Mark.covered) :
    ∃ i, IsFirstLongest Mark.unmatched (input.marks math catalogue) i
        (secondPass math input.samples covered).samples ∧
      (secondPass math input.samples covered).m =
        weight Mark.stepM (input.marks math catalogue) i
          (secondPass math input.samples covered).samples ∧
      (secondPass math input.samples covered).ms =
        weight (fun m => max 0 m.stepMs) (input.marks math catalogue) i
          (secondPass math input.samples covered).samples := by
  have hgap : (secondPass math input.samples covered).measured =
      ((input.marks math catalogue).foldl (LongestRun.step Mark.unmatched Mark.steps)
        (⟨0, 0⟩, ⟨0, 0⟩)).1 := by
    rw [hcovered]
    exact secondPass_measured math (input.index math catalogue) input.itemCells input.bakedCells
      input.samples
  obtain ⟨i, hlongest, hweight⟩ := foldl_isFirstLongest Mark.unmatched Mark.steps
    (input.marks math catalogue)
  rw [weight_steps] at hweight
  rw [← hgap] at hlongest hweight
  exact ⟨i, hlongest, congrArg Prod.fst hweight, congrArg Prod.snd hweight⟩

/-- The first loop of a call counts its marks. -/
theorem firstPass_input : firstPass math (input.index math catalogue) input.itemCells
    input.bakedCells input.samples = countsOf math (input.marks math catalogue) :=
  firstPass_eq math (input.index math catalogue) input.itemCells input.bakedCells input.samples

theorem coveredAny_input :
    coveredAny input.samples (countsOf math (input.marks math catalogue)).covered =
      (input.marks math catalogue).countP fun m => m.covered && !m.air :=
  coveredAny_eq math (input.index math catalogue) input.itemCells input.bakedCells input.samples

/-- Coverage metrics conserve samples. -/
theorem coverage_conserves (hdist : ∀ p q, 0 ≤ math.dist p q) :
    Conserves (input.marks math catalogue) (coverageOf math catalogue input).1
      (coverageOf math catalogue input).2 := by
  have hlength : input.samples.length = (input.marks math catalogue).length :=
    (length_marks math catalogue input).symm
  have hlongest : (countsOf math (input.marks math catalogue)).covered =
      (input.marks math catalogue).map Mark.covered := rfl
  obtain ⟨i, hgap, hgapM, hgapMs⟩ := secondPass_isFirstLongest math catalogue input hlongest
  obtain ⟨hcellMs, hcellM⟩ := terrainRecs_sums math (input.marks math catalogue)
  unfold coverageOf
  rw [firstPass_input]
  dsimp only
  rw [coveredAny_input]
  refine ⟨hlength, ?_, grounded_eq _, ?_, ?_, ?_, ?_, ?_, ⟨i, hgap, hgapM, hgapMs⟩, ⟨?_, ?_, ?_⟩, ?_⟩
  · show (input.marks math catalogue).countP Mark.air +
      (input.marks math catalogue).countP (fun m => !m.air) = input.samples.length
    rw [hlength, length_eq_air]
  · exact coveredAny_eq_sources _ fun m hm => source_of_air math catalogue input hm
  · exact samplesIn_terrainCells math (input.marks math catalogue)
  · show ((Dict.mapVal _ _).items.map _).sum = _
    unfold Dict.mapVal
    rw [List.map_map]
    exact hcellMs
  · show ((Dict.mapVal _ _).items.map _).sum = _
    unfold Dict.mapVal
    rw [List.map_map]
    exact hcellM
  · intro kv hkv
    obtain ⟨kv', hkv', rfl⟩ := List.mem_map.mp hkv
    exact first_of_terrainRecs math (marks_sorted math _ _ _ _) hkv'
  · exact length_le_filter hgap.run
  · rw [hgapM]
    exact (weight_le_filter hgap.run fun m hm => stepM_nonneg math catalogue input hdist hm).trans_eq
      (distanceM_eq _).symm
  · rw [hgapMs]
    exact (weight_le_filter hgap.run fun m _ => le_max_left 0 m.stepMs).trans_eq
      (durationMs_eq _).symm
  · split
    · rename_i hvalid
      simp [hvalid]
    · rename_i hvalid
      simp [hvalid]

end Main

/-- Distances along the axes. -/
def axisMath : CoverageMath ℚ where
  cos _ := 1
  sin _ := 0
  dist p q := |p.x - q.x| + |p.y - q.y| + |p.z - q.z|
  hypot x z := |x| + |z|
  atan2 _ _ := 0
  round4 x := x
  percent _ := "100%"

/-- A car that drives off the ground plane onto a slope that nothing covers. -/
def slopeDrive : CoverageInput ℚ where
  samples := [⟨⟨⟨16, 8, 16⟩, 0, 0⟩, none, none⟩, ⟨⟨⟨17, 8, 16⟩, 0, 100⟩, some 10, some 0⟩,
    ⟨⟨⟨17, 20, 16⟩, 0, 200⟩, none, none⟩, ⟨⟨⟨17, 24, 16⟩, 0, 300⟩, none, none⟩]
  checkpointIndices := [1]
  placements := []
  itemCells := Dict.empty
  bakedCells := Dict.empty
  freePadM := 8

theorem coverage_conserves_slope :
    (∀ p q, 0 ≤ axisMath.dist p q) ∧
      Conserves (slopeDrive.marks axisMath Dict.empty)
        (coverageOf axisMath Dict.empty slopeDrive).1
        (coverageOf axisMath Dict.empty slopeDrive).2 := by
  have hdist : ∀ p q, 0 ≤ axisMath.dist p q := by
    intro p q
    exact add_nonneg (add_nonneg (abs_nonneg _) (abs_nonneg _)) (abs_nonneg _)
  exact ⟨hdist, coverage_conserves axisMath Dict.empty slopeDrive hdist⟩

end TraxMania.Driven.Coverage
