import TraxMania.Driven.BlockMatcher

/-
  The coverage of one capture: what explains each grounded sample, the metrics that add up over
  the trajectory, and the terrain cells that the car crossed off the built track.
-/

namespace TraxMania.Driven.Coverage

open TraxMania.Grid Lib

/-! ## Samples -/

/-- A sample with its horizontal velocity, where the telemetry has one. -/
structure Motion (σ : Type) extends Sample σ where
  vx : Option σ
  vz : Option σ

/-- What coverage needs of `math` beyond the matcher, and two formats of a float. -/
structure CoverageMath (σ : Type) extends Math σ where
  hypot : σ → σ → σ
  atan2 : σ → σ → σ
  /-- `round(x, 4)`. -/
  round4 : σ → σ
  /-- `f"\x7b100*x:.0f\x7d%"`. -/
  percent : σ → String

/-- The four candidate sources, in the order in which they are asked. -/
inductive Source where
  | grid
  | free
  | item
  | baked
deriving DecidableEq

/-- A sample of the trajectory as the loops see it. -/
structure Mark (σ : Type) where
  index : Nat
  sample : Motion σ
  stepM : σ
  stepMs : Int
  air : Bool
  source : Option Source

section Marks

variable {σ : Type} [Metres σ]

/-- `ROW_TOLERANCE`. -/
def rowTolerance : List Int := [0, -1]
/-- `TERRAIN_ABS_Y_TOLERANCE_M`. -/
def terrainAbsYToleranceM : σ := const 3 / const 2

/-- `int(x)`. -/
def intOf (x : σ) : Int := if const 0 ≤ x then Metres.floor x else -Metres.floor (-x)

/-- `index.grid_hit(x, y, z, dy=d)`. -/
def gridHit (index : CandidateIndex σ) (p : Point σ) (dy : Int) : Bool :=
  (index.cells.get? (toCell p + ⟨0, dy, 0⟩)).isSome

/-- `index.free_hit(x, y, z)`. -/
def freeHit (math : Math σ) (index : CandidateIndex σ) (p : Point σ) : Bool :=
  index.boxes.any fun b => b.contains math p

/-- `g`, `f`, `it` and `bk`: at most one of them. -/
def sourceAt (math : Math σ) (index : CandidateIndex σ) (itemCells bakedCells : Dict Cell Nat)
    (p : Point σ) : Option Source :=
  if rowTolerance.any fun d => gridHit index p d then some .grid
  else if freeHit math index p then some .free
  else if (itemCells.get? (toCell p)).isSome then some .item
  else if (bakedCells.get? (toCell p)).isSome then some .baked
  else none

/-- `step_m` and `step_ms`. -/
def stepFrom (math : Math σ) (prev : Option (Motion σ)) (s : Motion σ) : σ × Int :=
  match prev with
  | none => (const 0, 0)
  | some p => (math.dist s.pos p.pos, intOf s.timeMs - intOf p.timeMs)

/-- The samples with what the loops compute for each. An airborne one is not matched at all. -/
def marks (math : Math σ) (index : CandidateIndex σ) (itemCells bakedCells : Dict Cell Nat)
    (samples : List (Motion σ)) : List (Mark σ) :=
  (List.range samples.length).filterMap fun i =>
    (samples[i]?).map fun s =>
      let step := stepFrom math (if i = 0 then none else samples[i - 1]?) s
      let air := airborneAt (samples.map Motion.toSample) i
      ⟨i, s, step.1, step.2, air,
        if air then none else sourceAt math index itemCells bakedCells s.pos⟩

variable (m : Mark σ)

/-- `covered[i]`. -/
def Mark.covered : Bool := m.source.isSome

/-- `to_cell(x, y, z)`. -/
def Mark.cell : Cell := toCell m.sample.pos

/-- `on_ground`. -/
def Mark.onGround : Bool :=
  m.cell.y = groundRow && decide (fabs (m.sample.pos.y - groundAbsYM) ≤ terrainAbsYToleranceM)

/-- The sample is off-road driving. -/
def Mark.terrain : Bool := !m.air && !m.covered && m.onGround

/-- The sample is grounded, and neither a block nor the terrain explains it. -/
def Mark.unmatched : Bool := !m.air && !m.covered && !m.onGround

end Marks

/-! ## Terrain cells -/

/-- `rec`: what a terrain cell has gathered. -/
structure TerrainRec (σ : Type) where
  firstSampleIndex : Nat
  sampleCount : Nat
  durationMs : Int
  distanceM : σ
  hx : σ
  hz : σ

/-- A terrain cell as it is stored, with its mean heading. -/
structure TerrainCell (σ : Type) where
  firstSampleIndex : Nat
  sampleCount : Nat
  durationMs : Int
  distanceM : σ
  meanHeadingRad : Option σ
deriving DecidableEq

section Terrain

variable {σ : Type} [Metres σ] (math : CoverageMath σ)

/-- One more sample in the cell. -/
def Mark.addTo (m : Mark σ) (old : Option (TerrainRec σ)) : TerrainRec σ :=
  let entry := old.getD ⟨m.index, 0, 0, const 0, const 0, const 0⟩
  let vx := m.sample.vx.getD (const 0)
  let vz := m.sample.vz.getD (const 0)
  let mag := math.hypot vx vz
  let moving := const 1 / const 1000000 < mag
  { entry with
    sampleCount := entry.sampleCount + 1
    durationMs := entry.durationMs + max 0 m.stepMs
    distanceM := entry.distanceM + m.stepM
    hx := if moving then entry.hx + vx / mag else entry.hx
    hz := if moving then entry.hz + vz / mag else entry.hz }

/-- `terrain`, before the headings are averaged. -/
def terrainRecs (ms : List (Mark σ)) : Dict Cell (TerrainRec σ) :=
  (ms.filter Mark.terrain).foldl (fun cells m => cells.upsert m.cell (m.addTo math)) Dict.empty

/-- The heading of a cell; none when the car has not moved in it. -/
def TerrainRec.close (r : TerrainRec σ) : TerrainCell σ where
  firstSampleIndex := r.firstSampleIndex
  sampleCount := r.sampleCount
  durationMs := r.durationMs
  distanceM := r.distanceM
  meanHeadingRad :=
    if r.hx = const 0 ∧ r.hz = const 0 then none else some (math.atan2 r.hz r.hx)

/-- `terrain_cells`. -/
def terrainCells (ms : List (Mark σ)) : Dict Cell (TerrainCell σ) :=
  (terrainRecs math ms).mapVal (TerrainRec.close math)

end Terrain

/-- The samples of the cells, added up. -/
def samplesIn {σ : Type} (cells : List (Cell × TerrainCell σ)) : Nat :=
  (cells.map fun kv => kv.2.sampleCount).sum

section TerrainSums

variable {σ : Type} [Metres σ] (math : CoverageMath σ)

theorem sampleCount_addTo (m : Mark σ) (old : Option (TerrainRec σ)) :
    (m.addTo math old).sampleCount = (old.map TerrainRec.sampleCount).getD 0 + 1 := by
  cases old <;> rfl

/-- Every sample on the terrain is in one cell. -/
theorem samplesIn_terrainCells (ms : List (Mark σ)) :
    samplesIn (terrainCells math ms).items = ms.countP Mark.terrain := by
  have hclose : samplesIn (terrainCells math ms).items =
      ((terrainRecs math ms).items.map fun kv => kv.2.sampleCount).sum := by
    simp only [samplesIn, terrainCells, Dict.mapVal, List.map_map]
    rfl
  rw [hclose, terrainRecs, Dict.sum_foldl (ms.filter Mark.terrain) (sampleCount_addTo math),
    List.map_const', List.sum_replicate_nat, Nat.mul_one, ← List.countP_eq_length_filter]
  exact Nat.zero_add _

theorem sampleCount_pos (ms : List (Mark σ)) :
    ∀ kv ∈ (terrainCells math ms).items, 0 < kv.2.sampleCount := by
  have hrecs : ∀ kv ∈ (terrainRecs math ms).items, 0 < kv.2.sampleCount := by
    refine Dict.forall_foldl (P := fun _ (r : TerrainRec σ) => 0 < r.sampleCount)
      (d := Dict.empty) (fun kv h => nomatch h) fun m _ old _ => ?_
    rw [sampleCount_addTo]
    exact Nat.succ_pos _
  intro kv hkv
  obtain ⟨kv', hkv', rfl⟩ := List.mem_map.mp hkv
  exact hrecs kv' hkv'

end TerrainSums

/-! ## Metrics -/

/-- `capture_status`: whether there is a usable trajectory. -/
inductive CaptureStatus where
  | valid
  | noMovement
  | incomplete
  | corrupt
deriving DecidableEq

/-- `route_surface_class`: what the car was on. -/
inductive SurfaceClass where
  | blockCovered
  | terrainOffroad
  | mixed
  | unresolvedElevated
deriving DecidableEq

/-- `metrics`: the columns of a coverage row that are measured. -/
structure Metrics (σ : Type) where
  samplesTotal : Nat
  samplesAirborne : Nat
  samplesGrounded : Nat
  coveredGrid : Nat
  coveredFree : Nat
  coveredItem : Nat
  coveredBaked : Nat
  coveredAny : Nat
  checkpointSamples : Nat
  checkpointCovered : Nat
  unmatchedSamples : Nat
  unmatchedDistanceM : σ
  unmatchedDurationMs : Int
  longestGapSamples : Nat
  longestGapM : σ
  longestGapMs : Int
  terrainGroundSamples : Nat
  terrainGroundDistanceM : σ
  terrainGroundDurationMs : Int
  captureStatus : CaptureStatus
  captureFailureReason : Option String
  routeSurfaceClass : Option SurfaceClass
  routeSurfaceConfidence : Option σ
  routeSurfaceReason : Option String
deriving DecidableEq

section Metrics

variable {σ : Type} [Metres σ] (math : CoverageMath σ) (ms : List (Mark σ))

/-- `sum` of the steps in metres. -/
def distanceM : σ := ms.foldl (fun total m => total + m.stepM) (const 0)

/-- `sum` of the steps in milliseconds; time that runs backwards counts nothing. -/
def durationMs : Int := ms.foldl (fun total m => total + max 0 m.stepMs) 0

/-- A run of unmatched samples: how many, how far, how long. -/
structure Gap (σ : Type) where
  samples : Nat
  m : σ
  ms : Int

def Gap.none : Gap σ := ⟨0, const 0, 0⟩

/-- One turn of the loop over gaps: the longest one so far and the one that is open. -/
def gapStep (s : Gap σ × Gap σ) (m : Mark σ) : Gap σ × Gap σ :=
  if m.unmatched then
    let cur : Gap σ := ⟨s.2.samples + 1, s.2.m + m.stepM, s.2.ms + max 0 m.stepMs⟩
    (if s.1.samples < cur.samples then cur else s.1, cur)
  else (s.1, Gap.none)

/-- `best_n`, `best_m` and `best_ms`. -/
def longestGap : Gap σ := (ms.foldl gapStep (Gap.none, Gap.none)).1

/-- The grounded samples in the window around a checkpoint. -/
def checkpointMarks (window : Nat) (ci : Int) : List (Mark σ) :=
  ms.filter fun m => max 0 (ci - window) ≤ m.index &&
    decide ((m.index : Int) < min (ms.length : Int) (ci + window + 1)) && !m.air

/-- `n / total if total else 0.0`. -/
def share (n total : Nat) : σ := if total = 0 then const 0 else const n / const total

/-- The first axis: whether the capture is valid, and why it is not. -/
def capture (anchored : Bool) (exitReason : String) (grounded : Nat) :
    CaptureStatus × Option String :=
  if !anchored then
    (.noMovement, some ("ghost never entered the scene; every sample sits at the origin, so " ++
      "there is no trajectory to classify"))
  else if exitReason = "playback_timeout" ∨ exitReason = "max_frames_capped" then
    (.incomplete, some ("playback ended without finishing (exit_reason=" ++ exitReason ++ ")"))
  else if grounded = 0 then (.corrupt, some "no grounded samples in an anchored capture")
  else (.valid, none)

/-- The second axis: what a valid capture drove on, with a confidence and a reason. -/
def surface (groundPct terrainPct : σ) : SurfaceClass × σ × String :=
  if const 4 / const 5 ≤ groundPct then
    (.blockCovered, groundPct, "most grounded samples resolve to block candidates")
  else if const 1 / const 2 ≤ terrainPct then
    (.terrainOffroad, terrainPct, math.percent terrainPct ++
      " of grounded samples are on the ground plane off the built track")
  else if const 1 / const 5 ≤ terrainPct then
    (.mixed, min groundPct terrainPct, math.percent groundPct ++ " on blocks, " ++
      math.percent terrainPct ++ " on terrain; neither dominant")
  else
    (.unresolvedElevated, max (const 0) (const 1 - groundPct - terrainPct),
      "unmatched samples are elevated, not on terrain; candidate geometry may be missing " ++
        "(item geometry is not modelled)")

/-- The samples that one source explains. -/
def countSource (source : Source) : Nat := ms.countP fun m => m.source = some source

/-- What the loops add up to. -/
def metrics (checkpointIndices : List Int) (anchored : Bool) (exitReason : String)
    (checkpointWindow : Nat) : Metrics σ :=
  let grounded := ms.countP fun m => !m.air
  let coveredAny := ms.countP fun m => m.covered && !m.air
  let terrain := ms.filter Mark.terrain
  let unmatched := ms.filter Mark.unmatched
  let gap := longestGap ms
  let atCheckpoints := checkpointIndices.flatMap (checkpointMarks ms checkpointWindow)
  let status := capture anchored exitReason grounded
  let route := surface math (share coveredAny grounded) (share terrain.length grounded)
  let valid := status.1 = .valid
  { samplesTotal := ms.length
    samplesAirborne := ms.countP Mark.air
    samplesGrounded := grounded
    coveredGrid := countSource ms .grid
    coveredFree := countSource ms .free
    coveredItem := countSource ms .item
    coveredBaked := countSource ms .baked
    coveredAny := coveredAny
    checkpointSamples := atCheckpoints.length
    checkpointCovered := atCheckpoints.countP Mark.covered
    unmatchedSamples := unmatched.length
    unmatchedDistanceM := distanceM unmatched
    unmatchedDurationMs := durationMs unmatched
    longestGapSamples := gap.samples
    longestGapM := gap.m
    longestGapMs := gap.ms
    terrainGroundSamples := terrain.length
    terrainGroundDistanceM := distanceM terrain
    terrainGroundDurationMs := durationMs terrain
    captureStatus := status.1
    captureFailureReason := status.2
    routeSurfaceClass := if valid then some route.1 else none
    routeSurfaceConfidence :=
      if valid then some (math.round4 (max (const 0) (min (const 1) route.2.1))) else none
    routeSurfaceReason := if valid then some route.2.2 else none }

end Metrics

/-! ## The result -/

/-- `CoverageResult`: the metrics and the terrain cells of one capture. The samples of the cells
    are the terrain samples of the metrics. -/
structure CoverageResult (σ : Type) where
  metrics : Metrics σ
  terrainCells : Dict Cell (TerrainCell σ)
  samplesIn_eq : samplesIn terrainCells.items = metrics.terrainGroundSamples
  sampleCount_pos : ∀ kv ∈ terrainCells.items, 0 < kv.2.sampleCount

/-- What `compute_coverage` is given. -/
structure CoverageInput (σ : Type) where
  samples : List (Motion σ)
  checkpointIndices : List Int
  placements : List (Placement σ)
  itemCells : Dict Cell Nat
  bakedCells : Dict Cell Nat
  anchored : Bool := true
  exitReason : String := ""
  freeAnchor : FreeAnchor := .center
  freePadM : σ
  checkpointWindow : Nat := 10

section Result

variable {σ : Type} [Metres σ] (math : CoverageMath σ) (catalogue : BlockCatalogue)

/-- The samples of an input with what explains them. -/
def CoverageInput.marks (input : CoverageInput σ) : List (Mark σ) :=
  Coverage.marks math.toMath
    (CandidateIndex.init math.toMath catalogue input.freeAnchor input.freePadM input.placements)
    input.itemCells input.bakedCells input.samples

/-- `compute_coverage`. -/
def computeCoverage (input : CoverageInput σ) : CoverageResult σ where
  metrics := metrics math (input.marks math catalogue) input.checkpointIndices input.anchored
    input.exitReason input.checkpointWindow
  terrainCells := Coverage.terrainCells math (input.marks math catalogue)
  samplesIn_eq := by
    rw [samplesIn_terrainCells, List.countP_eq_length_filter]
    rfl
  sampleCount_pos := Coverage.sampleCount_pos math _

end Result

end TraxMania.Driven.Coverage
