import TraxMania.Generation.AiAnchors
import TraxMania.Generation.AiInterval
import TraxMania.Generation.Generator

/-
  `generate_ai_map`: the intervals between the base map's anchors walked one after the other, the
  checks after the walk, and the artifact with its verdict. A returned artifact that is not
  verified says why, except when every two consecutive anchors stand next to each other.
-/

namespace TraxMania.Generation.Ai

open TraxMania.Grid Lib Route Validation Generator

/-! ## Inputs and the base map -/

/-- The knobs of `AIGenerationInputs` that the generator reads. -/
structure AiInputs where
  baseMapId : Int
  randomSeed : Int := 42
  beamWidth : Int := 3
  maxIntervalDepth : Int := 12
deriving DecidableEq

/-- `_BaseAnchors`, without the provenance and the block families. -/
structure BaseAnchors where
  anchors : List Anchor
  anchorBlocks : List MapBlock

/-- The block dictionary of a row; `str` of a missing name is `None`. -/
def anchorBlock (r : BlockPlacementRow) : MapBlock where
  family := r.blockFamily.getD "None"
  name := r.blockType.getD "None"
  x := r.x
  y := r.y
  z := r.z
  rotation := r.rotation.getD 0

/-- What the generator loads besides the base map. -/
structure Corpus (σ : Type) where
  catalogue : List CatalogueEntry
  pairPriors : PairPriors σ
  triplePriors : TriplePriors σ
  shapeSurface : ShapeSurfaceLookup

/-! ## The artifact -/

/-- An entry of `route.corridors_used`. -/
structure AiCorridorUsed (σ : Type) where
  corridorId : Int
  intervalIndex : Nat
  learnedCorridorScore : σ
  containsVirtualEdge : Bool
  pathLengthCells : Int
deriving DecidableEq

/-- The block of the artifact that holds the verdict. -/
structure Finishability (σ : Type) where
  routeVerified : Bool
  estimatedTimeMs : Option Int
  aiConfidence : Option σ
  rejectReason : Option RejectReason
  detail : Option String
deriving DecidableEq

/-- The `generation-v0.2` artifact, without its provenance; `map.blocks` is the anchor blocks and
    then the synthesised ones. -/
structure AiArtifact (σ : Type) where
  inputs : AiInputs
  anchorBlocks : List MapBlock
  synthesised : List (AiBlock σ)
  intervalCount : Nat
  checkpoints : List MapCheckpoint
  intervals : List (IntervalEntry σ)
  corridorsUsed : List (AiCorridorUsed σ)
  cellsTotal : Nat
  finishability : Finishability σ

section Generate

variable {σ : Type}

/-- `_fetch_base_anchors` on the rows of the map. -/
def baseAnchors (rows : MapRows σ) : BaseAnchors :=
  let anchors := fetchBaseAnchors (rows.waypoints.map (·.toCheckpointRow))
  { anchors := anchors
    anchorBlocks := (rows.blockPlacements.map anchorBlock).filter fun b =>
      decide (b.cell ∈ anchors.filterMap Anchor.cell) }

/-- `_anchor_block_at`. -/
def anchorBlockAt (anchorBlocks : List MapBlock) (cell : Cell) : Option BlockName :=
  (anchorBlocks.find? fun b => decide (b.cell = cell)).map fun b => (b.family, b.name)

/-- The artifact's checkpoints: one for each anchor, numbered in chain order. -/
def aiCheckpoints (anchors : List Anchor) : List MapCheckpoint :=
  (anchors.filterMap fun a => a.cell.map fun cell => (a, cell)).zipIdx.map fun ((a, cell), i) =>
    ⟨i, a.order, a.tag, cell⟩

/-- What the walk has made so far. -/
structure Walked (σ : Type) where
  synthesised : List (AiBlock σ)
  intervals : List (IntervalEntry σ)
  corridorsUsed : List (AiCorridorUsed σ)
  allCells : List Cell
  scoreSum : σ
  scoreCount : Nat
  occupied : Finset Cell

/-- `_build_v0_2_artifact`. -/
def buildAiArtifact (inputs : AiInputs) (base : BaseAnchors) (w : Walked σ)
    (verdict : Finishability σ) : AiArtifact σ where
  inputs := inputs
  anchorBlocks := base.anchorBlocks
  synthesised := w.synthesised
  intervalCount := max 1 (base.anchors.length - 1)
  checkpoints := aiCheckpoints base.anchors
  intervals := w.intervals
  corridorsUsed := w.corridorsUsed
  cellsTotal := w.allCells.length
  finishability := verdict

/-- The verdict of the artifacts that are built before the walk is over. -/
def rejectedVerdict (reason : Option RejectReason) (detail : Option String) : Finishability σ :=
  ⟨false, none, none, reason, detail⟩

variable [Decimals σ]

/-- Before the first interval: the anchor cells are occupied. -/
def startWalk (anchors : List Anchor) : Walked σ :=
  ⟨[], [], [], [], zero, 0, (anchors.filterMap Anchor.cell).toFinset⟩

/-- `int(32 * n / 30 * 1000)`; the value is not negative. -/
def walkTimeMs (σ : Type) [Score σ] (n : Nat) : Int :=
  Score.floorDiv (((32 * n : Int) : σ) / ((30 : Int) : σ) * ((1000 : Int) : σ)) one

/-- The bookkeeping after an interval that was not rejected. -/
def Walked.add (w : Walked σ) (idx : Nat) (src dst : Anchor) (r : IntervalResult σ)
    (occupied : Finset Cell) : Walked σ where
  synthesised := w.synthesised ++ r.blocks
  intervals := w.intervals ++
    [{ index := idx, srcTag := src.tag, srcOrder := src.order, dstTag := dst.tag,
       dstOrder := dst.order, chosenCorridorId := -((idx : Int) + 1), chosenCorridorScore := zero,
       pathLengthCells := r.pathCells.length,
       expectedTimeMs := walkTimeMs σ r.pathCells.length }]
  corridorsUsed := w.corridorsUsed ++
    [⟨-((idx : Int) + 1), idx, zero, false, r.pathCells.length⟩]
  allCells := w.allCells ++ r.pathCells
  scoreSum := w.scoreSum + r.scoreSum
  scoreCount := w.scoreCount + r.scoreCount
  occupied := occupied

/-- The arguments of the call of `_generate_interval`. -/
def intervalArgs (inputs : AiInputs) (base : BaseAnchors) (corpus : Corpus σ) (src dst : Cell) :
    IntervalArgs σ where
  srcCell := src
  dstCell := dst
  srcBlock := anchorBlockAt base.anchorBlocks src
  catalogue := corpus.catalogue
  priors := ⟨corpus.pairPriors, some corpus.triplePriors, some corpus.shapeSurface⟩
  maxDepth := inputs.maxIntervalDepth
  weights := aiGeneratorWeights
  beamWidth := max 1 inputs.beamWidth

/-- `for idx in range(len(base.anchors) - 1)`; a rejected interval ends the walk. -/
def walkIntervals (inputs : AiInputs) (base : BaseAnchors) (corpus : Corpus σ) :
    Nat → List (Anchor × Anchor) → Walked σ → Except (Walked σ × IntervalResult σ) (Walked σ)
  | _, [], w => .ok w
  | idx, (src, dst) :: rest, w =>
    match src.cell, dst.cell with
    | some srcCell, some dstCell =>
      let r := generateInterval (intervalArgs inputs base corpus srcCell dstCell) w.occupied
      if r.1.rejectReason.isSome then .error (w, r.1)
      else walkIntervals inputs base corpus (idx + 1) rest (w.add idx src dst r.1 r.2)
    | _, _ => walkIntervals inputs base corpus (idx + 1) rest w

/-- `ai_confidence`: the mean step score over the best one. -/
def aiConfidence (w : Walked σ) : Option σ :=
  if 0 < w.scoreCount ∧ 0 < positiveWeightTenths then
    some (clamp01 (w.scoreSum / ((w.scoreCount : Int) : σ) / tenths positiveWeightTenths))
  else none

/-- `AI_CONFIDENCE_FLOOR`. -/
def aiConfidenceFloor : σ := hundredths 30

theorem forwardMin_pos : (0 : Int) < 2 := by decide

theorem forwardMin_le : (2 : Int) ≤ 12 := by decide

/-- `JumpConeConfig()`. -/
def defaultCone : JumpConeConfig where
  forwardMin_pos := forwardMin_pos
  forwardMin_le := forwardMin_le

/-- The counts of the checks after the walk, as the detail of the verdict. -/
def validationDetail (py : Python) (db : Database σ) (rows : MapRows σ) (base : BaseAnchors)
    (w : Walked σ) : Except PyError (Option String) :=
  let lookup := loadGeometryLookup db
  if lookup.items.isEmpty ∨ w.allCells.isEmpty then .ok none
  else do
    let blocks := base.anchorBlocks ++ w.synthesised.map (·.toMapBlock)
    let spawnCell := base.anchors.head?.bind (·.cell)
    let findings := validateMapGeometry blocks lookup w.allCells spawnCell 9 1
    let fails := (byCode findings .partialMulticell).countP fun f => decide (f.severity = .fail)
    let replayCells ← loadReplayTouchedCells py rows
    let touched := if replayCells.isEmpty then none else some replayCells
    let broken := (validateJumps blocks lookup w.allCells touched defaultCone 2).count .likelyBroken
    return some ("post-synth: partial_multicell_fails=" ++ toString fails ++
      " likely_broken_jumps=" ++ toString broken)

/-- `route_verified`, `reject_reason` and `estimated_time_ms` after a walk of all intervals. -/
def finalVerdict (base : BaseAnchors) (w : Walked σ) (detail : Option String) : Finishability σ :=
  let confidence := aiConfidence w
  let verified := decide (w.intervals.length = base.anchors.length - 1) &&
    confidence.any fun c => decide (aiConfidenceFloor ≤ c)
  { routeVerified := verified
    estimatedTimeMs :=
      if w.intervals.isEmpty then none else some (w.intervals.map (·.expectedTimeMs)).sum
    aiConfidence := confidence
    rejectReason :=
      if verified then none
      else if confidence.any fun c => decide (c < aiConfidenceFloor) then
        some .confidenceBelowFloor
      else none
    detail := detail }

/-- `generate_ai_map`; `schemaError` is what `validate_generated_map` says. -/
def generateAiMap (py : Python) (schemaError : AiArtifact σ → Option String) (db : Database σ)
    (corpus : Corpus σ) (inputs : AiInputs) : Except Failure (AiArtifact σ) :=
  match db.maps inputs.baseMapId with
  | none => .error (.valueError ("base map_id=" ++ toString inputs.baseMapId ++ " not found"))
  | some rows =>
    let base := baseAnchors rows
    let start : Walked σ := startWalk base.anchors
    if base.anchors.length < 2 then
      .ok (buildAiArtifact inputs base start (rejectedVerdict (some .emptyCorridors)
        (some "base map has fewer than 2 anchors")))
    else if !isLinkedCp base.anchors then
      .ok (buildAiArtifact inputs base start (rejectedVerdict (some .plainCpNotSupportedV0)
        (some ("v0.2 AI generator supports Linked-CP maps only " ++
          "(see minimal-ai-generator-v0.md §Scope)"))))
    else
      match walkIntervals inputs base corpus 0 (base.anchors.zip base.anchors.tail) start with
      | .error (w, r) =>
        .ok (buildAiArtifact inputs base
          { w with synthesised := w.synthesised ++ r.blocks, allCells := w.allCells ++ r.pathCells }
          (rejectedVerdict r.rejectReason r.detail))
      | .ok w =>
        match validationDetail py db rows base w with
        | .error e => .error (.raised e)
        | .ok detail =>
          let artifact := buildAiArtifact inputs base w (finalVerdict base w detail)
          match schemaError artifact with
          | some err => .error (.runtimeError ("v0.2 artifact failed schema validation: " ++ err))
          | none => .ok artifact

/-! ## The walk -/

/-- Two anchors between which there is nothing to place. -/
def StandTogether (ends : Anchor × Anchor) : Prop :=
  ∀ src ∈ ends.1.cell, ∀ dst ∈ ends.2.cell, ArrivedXZ src dst

/-- Both anchors have a cell. -/
def OnGrid (ends : Anchor × Anchor) : Prop := ends.1.cell.isSome ∧ ends.2.cell.isSome

theorem standTogether_iff {src dst : Anchor} {srcCell dstCell : Cell}
    (hsrc : src.cell = some srcCell) (hdst : dst.cell = some dstCell) :
    StandTogether (src, dst) ↔ ArrivedXZ srcCell dstCell := by
  unfold StandTogether
  rw [hsrc, hdst]
  constructor
  · intro h
    exact h srcCell rfl dstCell rfl
  · intro h src hsrc dst hdst
    rw [← Option.some.inj hsrc, ← Option.some.inj hdst]
    exact h

/-- One turn of the loop, for two anchors on the grid. -/
theorem walkIntervals_cons (inputs : AiInputs) (base : BaseAnchors) (corpus : Corpus σ) (idx : Nat)
    {src dst : Anchor} (rest : List (Anchor × Anchor)) (w : Walked σ) (h : OnGrid (src, dst)) :
    ∃ args : IntervalArgs σ, (StandTogether (src, dst) ↔ ArrivedXZ args.srcCell args.dstCell) ∧
      walkIntervals inputs base corpus idx ((src, dst) :: rest) w =
        if (generateInterval args w.occupied).1.rejectReason.isSome then
          .error (w, (generateInterval args w.occupied).1)
        else walkIntervals inputs base corpus (idx + 1) rest
          (w.add idx src dst (generateInterval args w.occupied).1
            (generateInterval args w.occupied).2) := by
  obtain ⟨srcCell, hsrc⟩ := Option.isSome_iff_exists.mp h.1
  obtain ⟨dstCell, hdst⟩ := Option.isSome_iff_exists.mp h.2
  refine ⟨intervalArgs inputs base corpus srcCell dstCell, standTogether_iff hsrc hdst, ?_⟩
  rw [walkIntervals, hsrc, hdst]

/-- A walk of all intervals lists every one of them; it has placed nothing exactly when the
    anchors stand together pair by pair. -/
theorem walkIntervals_ok {inputs : AiInputs} {base : BaseAnchors} {corpus : Corpus σ} {idx : Nat}
    {pairs : List (Anchor × Anchor)} {w w' : Walked σ} (hgrid : ∀ p ∈ pairs, OnGrid p)
    (h : walkIntervals inputs base corpus idx pairs w = .ok w') :
    w'.intervals.length = w.intervals.length + pairs.length ∧
      (w'.scoreCount = 0 ↔ w.scoreCount = 0 ∧ ∀ p ∈ pairs, StandTogether p) := by
  induction pairs generalizing idx w with
  | nil =>
    obtain rfl : w = w' := Except.ok.inj h
    simp
  | cons p rest ih =>
    obtain ⟨src, dst⟩ := p
    obtain ⟨args, hnear, hturn⟩ :=
      walkIntervals_cons inputs base corpus idx rest w (hgrid _ List.mem_cons_self)
    rw [hturn] at h
    split at h
    · cases h
    · next hreject =>
      have hnone : (generateInterval args w.occupied).1.rejectReason = none :=
        Option.not_isSome_iff_eq_none.mp hreject
      obtain ⟨hlength, hcount⟩ := ih (fun q hq => hgrid q (List.mem_cons_of_mem _ hq)) h
      have hzero := generateInterval_scoreCount hnone
      refine ⟨?_, ?_⟩
      · rw [hlength, Walked.add, List.length_append, List.length_singleton, List.length_cons]
        omega
      · rw [hcount, Walked.add, List.forall_mem_cons, hnear, ← hzero]
        simp only [Nat.add_eq_zero_iff, and_assoc]

/-- A walk is cut short by an interval whose anchors stand apart, with its reason. -/
theorem walkIntervals_error {inputs : AiInputs} {base : BaseAnchors} {corpus : Corpus σ}
    {idx : Nat} {pairs : List (Anchor × Anchor)} {w w' : Walked σ} {r : IntervalResult σ}
    (hgrid : ∀ p ∈ pairs, OnGrid p)
    (h : walkIntervals inputs base corpus idx pairs w = .error (w', r)) :
    r.rejectReason ≠ none ∧ ∃ p ∈ pairs, ¬ StandTogether p := by
  induction pairs generalizing idx w with
  | nil => cases h
  | cons p rest ih =>
    obtain ⟨src, dst⟩ := p
    obtain ⟨args, hnear, hturn⟩ :=
      walkIntervals_cons inputs base corpus idx rest w (hgrid _ List.mem_cons_self)
    rw [hturn] at h
    split at h
    · next hreject =>
      obtain ⟨-, rfl⟩ := Prod.mk.inj (Except.error.inj h)
      have hsome : (generateInterval args w.occupied).1.rejectReason ≠ none :=
        Option.isSome_iff_ne_none.mp hreject
      refine ⟨hsome, _, List.mem_cons_self, ?_⟩
      rw [hnear]
      exact not_near_of_rejected hsome
    · obtain ⟨hreason, q, hq, hfar⟩ := ih (fun q hq => hgrid q (List.mem_cons_of_mem _ hq)) h
      exact ⟨hreason, q, List.mem_cons_of_mem _ hq, hfar⟩

theorem onGrid_fetched (rows : List CheckpointRow) :
    ∀ p ∈ (fetchBaseAnchors rows).zip (fetchBaseAnchors rows).tail, OnGrid p := by
  have hcell : ∀ a ∈ fetchBaseAnchors rows, a.cell.isSome := by
    intro a ha
    obtain ⟨r, hr, rfl⟩ := List.mem_map.mp ha
    exact (List.mem_filter.mp ((Lib.SortBy.mem_sortBy _ _ _).mp hr)).2
  intro p hp
  obtain ⟨hsrc, hdst⟩ := List.of_mem_zip hp
  exact ⟨hcell _ hsrc, hcell _ (List.mem_of_mem_tail hdst)⟩

/-! ## Verdict and reason -/

/-- The verdict and the reason say the same. -/
def Finishability.Agrees (f : Finishability σ) : Prop :=
  f.routeVerified = true ↔ f.rejectReason = none

omit [Decimals σ] in
theorem rejectedVerdict_agrees {reason : Option RejectReason} (h : reason ≠ none)
    (detail : Option String) : (rejectedVerdict (σ := σ) reason detail).Agrees :=
  iff_of_false (by simp [rejectedVerdict]) h

theorem aiConfidence_eq_none (w : Walked σ) : aiConfidence w = none ↔ w.scoreCount = 0 := by
  unfold aiConfidence
  rw [ite_eq_right_iff]
  constructor
  · intro h
    by_contra hne
    exact absurd (h ⟨Nat.pos_iff_ne_zero.mpr hne, by decide⟩) (Option.some_ne_none _)
  · intro hzero h
    omega

/-- After a walk of all intervals the verdict and the reason agree unless nothing was placed. -/
theorem finalVerdict_agrees {base : BaseAnchors} {w : Walked σ} (detail : Option String)
    (h : w.intervals.length = base.anchors.length - 1) :
    (finalVerdict base w detail).Agrees ↔ w.scoreCount ≠ 0 := by
  unfold Finishability.Agrees finalVerdict
  simp only [decide_eq_true h, Bool.true_and]
  rw [ne_eq, ← aiConfidence_eq_none]
  cases hconf : aiConfidence w with
  | none => simp
  | some c =>
    by_cases hfloor : aiConfidenceFloor ≤ c
    · simp [hfloor]
    · simp [hfloor, not_le.mp hfloor]

/-- The anchors of a linked map that stand together pair by pair: a map on which the walk has
    nothing to place. -/
structure NothingToPlace (anchors : List Anchor) : Prop where
  two : 2 ≤ anchors.length
  linked : isLinkedCp anchors = true
  together : ∀ p ∈ anchors.zip anchors.tail, StandTogether p

/-- A returned artifact is verified if and only if it has no reject reason, except on a linked map
    whose consecutive anchors all stand together. -/
theorem generateAiMap_agrees_iff (py : Python) (schemaError : AiArtifact σ → Option String)
    (db : Database σ) (corpus : Corpus σ) (inputs : AiInputs) (rows : MapRows σ)
    (artifact : AiArtifact σ) (hrows : db.maps inputs.baseMapId = some rows)
    (h : generateAiMap py schemaError db corpus inputs = .ok artifact) :
    artifact.finishability.Agrees ↔ ¬ NothingToPlace (baseAnchors rows).anchors := by
  unfold generateAiMap at h
  simp only [hrows] at h
  have hgrid : ∀ p ∈ (baseAnchors rows).anchors.zip (baseAnchors rows).anchors.tail, OnGrid p :=
    onGrid_fetched _
  split at h
  · next hfew =>
    obtain rfl := Except.ok.inj h
    refine iff_of_true (rejectedVerdict_agrees (Option.some_ne_none _) _) fun hnothing => ?_
    exact absurd hnothing.two (by omega)
  · split at h
    · next hplain =>
      obtain rfl := Except.ok.inj h
      refine iff_of_true (rejectedVerdict_agrees (Option.some_ne_none _) _) fun hnothing => ?_
      rw [hnothing.linked] at hplain
      cases hplain
    · next htwo hlinked =>
      split at h
      · next w r hwalk =>
        obtain rfl := Except.ok.inj h
        obtain ⟨hreason, p, hp, hfar⟩ := walkIntervals_error hgrid hwalk
        refine iff_of_true (rejectedVerdict_agrees hreason _) fun hnothing => ?_
        exact hfar (hnothing.together p hp)
      · next w hwalk =>
        split at h
        · cases h
        · next detail _ =>
          split at h
          · cases h
          · obtain rfl := Except.ok.inj h
            obtain ⟨hlength, hcount⟩ := walkIntervals_ok hgrid hwalk
            have hall : w.intervals.length = (baseAnchors rows).anchors.length - 1 := by
              rw [hlength, List.length_zip, List.length_tail]
              simp [startWalk]
            have hagrees := finalVerdict_agrees detail hall
            refine hagrees.trans (not_congr ?_)
            rw [hcount]
            constructor
            · intro hnone
              exact ⟨by omega, by simpa using hlinked, hnone.2⟩
            · intro hnothing
              exact ⟨rfl, hnothing.together⟩

end Generate

/-! ## A map with nothing to place -/

/-- A linked map of three blocks in a row. -/
def threeInARow : MapRows ℚ where
  blockPlacements :=
    [⟨0, some "Road", some "RoadStart", 10, 9, 10, some 0⟩,
      ⟨1, some "Road", some "RoadCheckpoint", 11, 9, 10, some 0⟩,
      ⟨2, some "Road", some "RoadFinish", 12, 9, 10, some 0⟩]
  waypoints :=
    [{ waypointIndex := 0, waypointOrder := 0, tag := "Spawn", x := some 10, y := some 9,
       z := some 10, absX := none, absY := none, absZ := none },
      { waypointIndex := 1, waypointOrder := 1, tag := "LinkedCheckpoint", x := some 11,
        y := some 9, z := some 10, absX := none, absY := none, absZ := none },
      { waypointIndex := 2, waypointOrder := 2, tag := "Goal", x := some 12, y := some 9,
        z := some 10, absX := none, absY := none, absZ := none }]
  corridors := []
  ids_nodup := List.nodup_nil

def threeInARowDb : Database ℚ := ⟨fun mapId => if mapId = 1 then some threeInARow else none, []⟩

def emptyCorpus : Corpus ℚ := ⟨[], Dict.empty, Dict.empty, Dict.empty⟩

/-- The run on that map; nothing of it asks the standard library. -/
def threeInARowRun : Except Failure (AiArtifact ℚ) :=
  generateAiMap emptyListPython (fun _ => none) threeInARowDb emptyCorpus ⟨1, 42, 3, 12⟩

theorem threeInARow_verdict : threeInARowRun.toOption.map AiArtifact.finishability =
    some ⟨false, some 2132, none, none, none⟩ := by
  decide +kernel

/-- The artifact of that map is unverified and says no reason. -/
theorem threeInARow_not_agrees :
    ∃ artifact, threeInARowRun = .ok artifact ∧ ¬ artifact.finishability.Agrees := by
  have hverdict := threeInARow_verdict
  cases hrun : threeInARowRun with
  | error e =>
    rw [hrun] at hverdict
    cases hverdict
  | ok artifact =>
    rw [hrun] at hverdict
    have hfin : artifact.finishability = ⟨false, some 2132, none, none, none⟩ :=
      Option.some.inj hverdict
    refine ⟨artifact, rfl, fun h => ?_⟩
    rw [hfin] at h
    exact absurd (h.mpr rfl) (by simp)

theorem generateAiMap_agrees_iff_threeInARow :
    ∃ artifact, threeInARowRun = .ok artifact ∧
      (artifact.finishability.Agrees ↔ ¬ NothingToPlace (baseAnchors threeInARow).anchors) := by
  obtain ⟨artifact, hrun, -⟩ := threeInARow_not_agrees
  exact ⟨artifact, hrun, generateAiMap_agrees_iff emptyListPython (fun _ => none) threeInARowDb
    emptyCorpus ⟨1, 42, 3, 12⟩ threeInARow artifact rfl hrun⟩

end TraxMania.Generation.Ai
