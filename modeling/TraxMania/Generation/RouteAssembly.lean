import TraxMania.Generation.RouteTypes
import TraxMania.Lib.Outcome

/-
  The pure assembly pass: one corridor for every pair of consecutive anchors, picked among the top
  candidates of the tie-break order, then the continuity check and the aggregates.
-/

namespace TraxMania.Generation.Route

open TraxMania.Grid Lib Lib.SortBy Lib.Enumerate

variable {σ : Type} [Score σ]

/-! ## Physics -/

/-- `_BLOCK_SIZE_M`. -/
def blockSizeM : σ := ((32 : Int) : σ)

/-- `_DEFAULT_SPEED_PRIOR_M_S`. -/
def defaultSpeedPriorMS : σ := ((30 : Int) : σ)

/-- `_expected_time_ms`. -/
def expectedTimeMs (σ : Type) [Score σ] (pathLengthCells : Int) : Int :=
  if pathLengthCells ≤ 0 then 0
  else
    let seconds : σ := (pathLengthCells : σ) * blockSizeM / defaultSpeedPriorMS
    Score.round (seconds * ((1000 : Int) : σ))

/-! ## Tie-break and continuity -/

/-- `-(score if score is not None else -1.0)`. -/
def negated (score : Option σ) : σ := -score.getD ((-1 : Int) : σ)

/-- `_tie_break_key`. -/
def tieBreakKey (c : CandidateCorridor σ) : σ ×ₗ σ ×ₗ Int ×ₗ Int :=
  toLex (negated c.learnedCorridorScore,
    toLex (negated c.combinedSequenceScore, toLex (c.pathLength, c.corridorId)))

/-- `zero_floor`. -/
def zeroFloor (validationScore : Option σ) : Nat :=
  if validationScore = some ((0 : Int) : σ) then 1 else 0

/-- `_tie_break_key_with_validation`. -/
def tieBreakKeyWithValidation (c : CandidateCorridor σ) : σ ×ₗ Nat ×ₗ σ ×ₗ σ ×ₗ Int ×ₗ Int :=
  toLex (negated c.learnedCorridorScore, toLex (zeroFloor c.validationScore,
    toLex (negated c.validationScore, toLex (negated c.combinedSequenceScore,
      toLex (c.pathLength, c.corridorId)))))

/-- `_pick_within_top_k`; `digest` is the `blake2b` digest of a text as a number. -/
def pickWithinTopK (digest : String → Nat) (randomSeed : Int) (intervalIndex poolSize : Nat)
    (topK : Int) : Nat :=
  let k := min (max 1 topK) (max 1 (poolSize : Int))
  if k ≤ 1 then 0
  else digest (toString randomSeed ++ ":" ++ toString intervalIndex) % k.toNat

theorem pickWithinTopK_lt (digest : String → Nat) (randomSeed : Int) (intervalIndex : Nat)
    {poolSize : Nat} (topK : Int) (h : 0 < poolSize) :
    pickWithinTopK digest randomSeed intervalIndex poolSize topK < poolSize := by
  unfold pickWithinTopK
  simp only
  split
  · exact h
  · next hk =>
    have hpos : 0 < (min (max 1 topK) (max 1 (poolSize : Int))).toNat := by omega
    refine lt_of_lt_of_le (Nat.mod_lt _ hpos) ?_
    omega

/-- `_cells_continuous`. -/
def cellsContinuous (endCell startCell : Cell) : Bool :=
  max (max |endCell.x - startCell.x| |endCell.y - startCell.y|) |endCell.z - startCell.z| ≤ 1

/-! ## One interval -/

/-- `candidates_by_interval`. -/
def candidatesByInterval (candidates : List (CandidateCorridor σ)) :
    Dict IntervalKey (List (CandidateCorridor σ)) :=
  candidates.foldl (fun d c => d.upsert c.intervalKey fun old => old.getD [] ++ [c]) Dict.empty

/-- `scored_pool` of the interval between two anchors. -/
def scoredPool (candidates : Dict IntervalKey (List (CandidateCorridor σ))) (src dst : Anchor) :
    List (ScoredCorridor σ) :=
  ((candidates.get? (src.key, dst.key)).getD []).filterMap CandidateCorridor.scored?

/-- `scored_pool` after its one or two sorts. -/
def sortedPool (useValidationTieBreak : Bool) (pool : List (ScoredCorridor σ)) :
    List (ScoredCorridor σ) :=
  let sorted := sortBy (fun p => tieBreakKey p.corridor) pool
  if useValidationTieBreak then sortBy (fun p => tieBreakKeyWithValidation p.corridor) sorted
  else sorted

theorem sortedPool_perm (useValidationTieBreak : Bool) (pool : List (ScoredCorridor σ)) :
    (sortedPool useValidationTieBreak pool).Perm pool := by
  unfold sortedPool
  simp only
  split
  · exact (sortBy_perm _ _).trans (sortBy_perm _ _)
  · exact sortBy_perm _ _

/-- `chosen`. -/
def chosenCorridor (top : ScoredCorridor σ) : ChosenCorridor σ where
  corridorId := top.corridor.corridorId
  mapId := top.corridor.mapId
  src := top.corridor.src
  dst := top.corridor.dst
  pathCells := top.corridor.pathCells
  pathLength := top.corridor.pathLength
  containsVirtualEdge := top.corridor.containsVirtualEdge
  corridorConfidence := top.corridor.corridorConfidence
  learnedCorridorScore := top.learned
  expectedTimeMs := expectedTimeMs σ top.corridor.pathLength
  combinedSequenceScore := top.corridor.combinedSequenceScore
  validationScore := top.corridor.validationScore

def missingError (idx : Nat) (src dst : Anchor) : AssemblyError where
  reason := .missingCorridorInInterval
  detail := "no learned-scored corridor for interval " ++ src.tag ++ "#" ++ toString src.order ++
    " → " ++ dst.tag ++ "#" ++ toString dst.order
  intervalIndex := some idx

/-- The body of `for idx in range(len(inputs.anchors) - 1)`. -/
def assembleInterval (digest : String → Nat) (inputs : AssemblyInputs σ)
    (candidates : Dict IntervalKey (List (CandidateCorridor σ))) (idx : Nat)
    (ends : Anchor × Anchor) : Except AssemblyError (IntervalAssembly σ) :=
  let pool := scoredPool candidates ends.1 ends.2
  if h : pool = [] then .error (missingError idx ends.1 ends.2)
  else
    let ordered := sortedPool inputs.useValidationTieBreak pool
    have hordered : 0 < ordered.length := by
      rw [(sortedPool_perm _ pool).length_eq]
      exact List.length_pos_iff.mpr h
    let top := ordered.get ⟨pickWithinTopK digest inputs.randomSeed idx ordered.length
      inputs.topKCandidates, pickWithinTopK_lt _ _ _ _ hordered⟩
    .ok ⟨idx, ends.1, ends.2, chosenCorridor top⟩

/-! ## Chain continuity -/

/-- A cell as Python prints the tuple. -/
def cellText (c : Cell) : String :=
  "(" ++ toString c.x ++ ", " ++ toString c.y ++ ", " ++ toString c.z ++ ")"

def emptyCellsError (idx : Nat) : AssemblyError where
  reason := .invalidSchema
  detail := "interval " ++ toString idx ++ " or " ++ toString (idx + 1) ++ " has empty path_cells"
  intervalIndex := some idx

def chainBrokenError (idx : Nat) (endCell startCell : Cell) : AssemblyError where
  reason := .chainBroken
  detail := "interval " ++ toString idx ++ " ends at " ++ cellText endCell ++ " but interval " ++
    toString (idx + 1) ++ " starts at " ++ cellText startCell ++
    "; Chebyshev distance > 1 and no shared anchor block"
  intervalIndex := some idx

/-- The body of the continuity loop, for a corridor and the next one. -/
def checkContinuity (idx : Nat) (link : IntervalAssembly σ × IntervalAssembly σ) :
    Except AssemblyError Unit :=
  let thisC := link.1.chosen
  let nextC := link.2.chosen
  match thisC.pathCells.getLast?, nextC.pathCells.head? with
  | some endCell, some startCell =>
    if thisC.dst.tag = nextC.src.tag ∧ thisC.dst.order = nextC.src.order then .ok ()
    else if cellsContinuous endCell startCell then .ok ()
    else .error (chainBrokenError idx endCell startCell)
  | _, _ => .error (emptyCellsError idx)

/-! ## The pass -/

def tooFewAnchorsError (anchors : List Anchor) : AssemblyError where
  reason := .emptyCorridors
  detail := "anchor sequence has " ++ toString anchors.length ++
    " entries; need at least Spawn + Goal"
  intervalIndex := none

def plainCpError : AssemblyError where
  reason := .plainCpNotSupportedV0
  detail := "v0 generation supports Linked-CP maps only; plain-CP interval ordering is ambiguous " ++
    "until per-CP alignment or OpenPlanet telemetry arrives"
  intervalIndex := none

def noCandidatesError : AssemblyError where
  reason := .emptyCorridors
  detail := "map has no route_corridors rows"
  intervalIndex := none

/-- Python's `sum` of floats. -/
def sumScores (scores : List σ) : σ := scores.foldl (· + ·) ((0 : Int) : σ)

/-- The aggregates of step 4. -/
def assembledRoute (inputs : AssemblyInputs σ) (intervals : List (IntervalAssembly σ)) :
    AssembledRoute σ where
  mapId := inputs.mapId
  anchors := inputs.anchors
  intervals := intervals
  cellsTotal := (intervals.map fun iv => iv.chosen.pathLength).sum
  estimatedTimeMs := (intervals.map fun iv => iv.chosen.expectedTimeMs).sum
  aiConfidence := sumScores (intervals.map fun iv => iv.chosen.learnedCorridorScore) /
    ((intervals.length : Int) : σ)

/-- `assemble_route_from_inputs`. -/
def assembleRouteFromInputs (digest : String → Nat) (inputs : AssemblyInputs σ) :
    Except AssemblyError (AssembledRoute σ) :=
  if inputs.anchors.length < 2 then .error (tooFewAnchorsError inputs.anchors)
  else if !inputs.isLinkedCp then .error plainCpError
  else if inputs.candidates.isEmpty then .error noCandidatesError
  else do
    let candidates := candidatesByInterval inputs.candidates
    let intervals ← collect (assembleInterval digest inputs candidates) 0
      (inputs.anchors.zip inputs.anchors.tail)
    let _ ← collect checkContinuity 0 (intervals.zip intervals.tail)
    return assembledRoute inputs intervals

end TraxMania.Generation.Route
