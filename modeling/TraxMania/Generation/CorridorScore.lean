import TraxMania.Generation.JumpValidator
import TraxMania.Generation.RouteAssembly

/-
  `score_corridor`: the findings along one corridor's path as a score between 0 and 1.

  Two runs over maps that have the same blocks near the path, in the same order, score alike
  (`scoreCorridor_local`). A check reads the blocks of a map in two ways only: the first block of a
  cell (`blockAt_congr`), at cells within the reach of the landing search, and the footprints that
  come near the path (`partialHits_congr`).
-/

namespace TraxMania.Generation.Validation

open TraxMania.Grid Lib Route

variable {σ : Type} [Score σ]

/-- The penalty weights, in hundredths. -/
def hundredths (n : Int) : σ := (n : σ) / ((100 : Int) : σ)

/-- `_NEAR_RADIUS`. -/
def nearRadius : Int := 3

/-- `_near`. -/
def near (pathCells : List Cell) (findingCell : Cell) : Bool :=
  pathCells.any fun pc => chebyshev findingCell pc ≤ nearRadius

structure CorridorValidationScore (σ : Type) where
  corridorId : Int
  intervalIndex : Nat
  pathLength : Nat
  partialMulticellHits : Nat
  missingSupportHits : Nat
  routeGapHits : Nat
  jumpLikelyBroken : Nat
  jumpUncertain : Nat
  jumpGeometricallyPlausible : Nat
  jumpSupportedByReplay : Nat
  validationScore : σ

/-- `_corridor_validation_score`. -/
def corridorValidationScore (partialMulticellHits missingSupportHits routeGapHits jumpLikelyBroken
    jumpUncertain : Nat) : σ :=
  let penalty : σ :=
    hundredths 8 * ((partialMulticellHits : Int) : σ) +
      hundredths 4 * ((missingSupportHits : Int) : σ) +
      hundredths 5 * ((routeGapHits : Int) : σ) +
      hundredths 30 * ((jumpLikelyBroken : Int) : σ) +
      hundredths 8 * ((jumpUncertain : Int) : σ)
  max ((0 : Int) : σ) (min ((1 : Int) : σ) (((1 : Int) : σ) - penalty))

/-- `score_corridor`. -/
def scoreCorridorAt (groundY maxRouteStepCheb : Int) (jumpCone : JumpConeConfig) (corridorId : Int)
    (intervalIndex : Nat) (pathCells : List Cell) (normalisedBlocks : List MapBlock)
    (lookup : GeometryLookup) (replayTouchedCells : Option (List Cell)) :
    Option (CorridorValidationScore σ) :=
  if pathCells.isEmpty then none
  else
    let findings := validateMapGeometry normalisedBlocks lookup pathCells none groundY
      maxRouteStepCheb
    let partialHits := (byCode findings .partialMulticell).countP fun f =>
      decide (f.severity = .fail) && near pathCells f.cell
    let missingHits := (byCode findings .missingSupport).length
    let routeGapHits := (byCode findings .routeGap).length
    -- a path of one cell has no pair of cells, and so no jump
    let jumps := validateJumps normalisedBlocks lookup pathCells replayTouchedCells jumpCone 2
    let broken := jumps.count .likelyBroken
    let uncertain := jumps.count .uncertain
    some {
      corridorId := corridorId
      intervalIndex := intervalIndex
      pathLength := pathCells.length
      partialMulticellHits := partialHits
      missingSupportHits := missingHits
      routeGapHits := routeGapHits
      jumpLikelyBroken := broken
      jumpUncertain := uncertain
      jumpGeometricallyPlausible := jumps.count .geometricallyPlausible
      jumpSupportedByReplay := jumps.count .supportedByReplay
      validationScore :=
        corridorValidationScore partialHits missingHits routeGapHits broken uncertain }

/-- `score_corridor`, with `ground_y`, the route step and the cone at their defaults. -/
def scoreCorridor (corridorId : Int) (intervalIndex : Nat) (pathCells : List Cell)
    (normalisedBlocks : List MapBlock) (lookup : GeometryLookup)
    (replayTouchedCells : Option (List Cell)) : Option (CorridorValidationScore σ) :=
  scoreCorridorAt 9 1 {} corridorId intervalIndex pathCells normalisedBlocks lookup
    replayTouchedCells

/-! ## What a score depends on -/

/-- The cell is within a radius of the path. -/
def withinPath (radius : Int) (pathCells : List Cell) (c : Cell) : Bool :=
  pathCells.any fun pc => chebyshev c pc ≤ radius

/-- The blocks with their origin within a radius of the path. -/
def blocksNear (radius : Int) (pathCells : List Cell) (blocks : List MapBlock) : List MapBlock :=
  blocks.filter fun b => withinPath radius pathCells b.cell

/-- The block that a check sees in a cell. -/
def blockAt (blocks : List MapBlock) (c : Cell) : Option MapBlock :=
  ((cellToBlock blocks).get? c).map Prod.fst

theorem withinPath_iff {radius : Int} {pathCells : List Cell} {c : Cell} :
    withinPath radius pathCells c = true ↔ ∃ pc ∈ pathCells, chebyshev c pc ≤ radius := by
  simp [withinPath]

theorem withinPath_mono {r s : Int} (h : r ≤ s) {pathCells : List Cell} {c : Cell}
    (hc : withinPath r pathCells c = true) : withinPath s pathCells c = true := by
  obtain ⟨pc, hpc, hr⟩ := withinPath_iff.mp hc
  exact withinPath_iff.mpr ⟨pc, hpc, hr.trans h⟩

theorem blockAt_eq_find? (blocks : List MapBlock) (c : Cell) :
    blockAt blocks c = blocks.find? fun b => decide (b.cell = c) := by
  have hfst : blocks.zipIdx.map Prod.fst = blocks := List.zipIdx_map_fst 0 blocks
  unfold blockAt
  rw [get?_cellToBlock]
  conv_rhs => rw [← hfst, List.find?_map]
  rfl

section Locality

variable {blocks blocks' : List MapBlock} {pathCells : List Cell} {lookup : GeometryLookup}
  {radius : Int}

/-- Within the radius the two maps show the same blocks. -/
theorem blockAt_congr (h : blocksNear radius pathCells blocks = blocksNear radius pathCells blocks')
    {c : Cell} (hc : withinPath radius pathCells c = true) :
    blockAt blocks c = blockAt blocks' c := by
  have hnear : ∀ bs : List MapBlock, blockAt bs c =
      (blocksNear radius pathCells bs).find? fun b => decide (b.cell = c) := by
    intro bs
    unfold blocksNear
    rw [blockAt_eq_find?, List.find?_filter]
    refine congrArg (bs.find? ·) (funext fun b => ?_)
    by_cases hb : b.cell = c
    · simp [hb, hc]
    · simp [hb]
  rw [hnear blocks, hnear blocks', h]

/-- The lookups of a cell that shows the same block differ at most in its place in the list. -/
theorem get?_cases {c : Cell} (h : blockAt blocks c = blockAt blocks' c) :
    ((cellToBlock blocks).get? c = none ∧ (cellToBlock blocks').get? c = none) ∨
    ∃ b i j, (cellToBlock blocks).get? c = some (b, i) ∧
      (cellToBlock blocks').get? c = some (b, j) := by
  unfold blockAt at h
  cases hl : (cellToBlock blocks).get? c with
  | none =>
    rw [hl] at h
    exact Or.inl ⟨rfl, Option.map_eq_none_iff.mp h.symm⟩
  | some p =>
    rw [hl] at h
    obtain ⟨q, hq, hpq⟩ := Option.map_eq_some_iff.mp h.symm
    exact Or.inr ⟨p.1, p.2, q.2, rfl, by rw [hq, ← hpq]⟩

theorem infoAt_congr {c : Cell} (h : blockAt blocks c = blockAt blocks' c) :
    (((cellToBlock blocks).get? c).bind fun b => b.1.info? lookup) =
      ((cellToBlock blocks').get? c).bind fun b => b.1.info? lookup := by
  obtain ⟨hl, hr⟩ | ⟨b, i, j, hl, hr⟩ := get?_cases h
  · rw [hl, hr]
  · rw [hl, hr]
    rfl

theorem checkMissingSupport_congr {route : List Cell} {groundY : Int}
    (h : ∀ c ∈ route, blockAt blocks c = blockAt blocks' c ∧
      blockAt blocks ⟨c.x, c.y - 1, c.z⟩ = blockAt blocks' ⟨c.x, c.y - 1, c.z⟩) :
    checkMissingSupport route (cellToBlock blocks) lookup groundY =
      checkMissingSupport route (cellToBlock blocks') lookup groundY := by
  refine List.filterMap_congr fun c hc => ?_
  obtain ⟨hat, hbelow⟩ := h c hc
  obtain ⟨hl, hr⟩ | ⟨b, i, j, hl, hr⟩ := get?_cases hat
  · simp only [hl, hr]
  · obtain ⟨hl', hr'⟩ | ⟨b', i', j', hl', hr'⟩ := get?_cases hbelow <;>
      simp only [hl, hr, hl', hr']

theorem detectJumpCandidates_congr {route : List Cell} {minGapCheb : Int}
    (h : ∀ c ∈ route, blockAt blocks c = blockAt blocks' c) :
    detectJumpCandidates route (cellToBlock blocks) lookup minGapCheb =
      detectJumpCandidates route (cellToBlock blocks') lookup minGapCheb := by
  refine List.filterMap_congr fun step hstep => ?_
  have hprev : step.1 ∈ route := (List.of_mem_zip hstep).1
  dsimp only
  rw [infoAt_congr (h step.1 hprev)]

theorem takeoff_mem_route {route : List Cell} {occupants : Dict Cell (MapBlock × Nat)}
    {minGapCheb : Int} {candidate : JumpCandidate}
    (h : candidate ∈ detectJumpCandidates route occupants lookup minGapCheb) :
    candidate.takeoffCell ∈ route := by
  obtain ⟨step, hstep, hcand⟩ := List.mem_filterMap.mp h
  have hprev : step.1 ∈ route := (List.of_mem_zip hstep).1
  grind

/-- The default cone stays within 12 cells of the takeoff. -/
theorem chebyshev_coneCell_le {o : Cell} {axis : Int × Int} (haxis : IsAxis axis)
    {step lat dy : Int} (hstep : 2 ≤ step ∧ step ≤ 12) (hlat : -2 ≤ lat ∧ lat ≤ 2)
    (hdy : -8 ≤ dy ∧ dy ≤ 4) : chebyshev (coneCell o axis step lat dy) o ≤ 12 := by
  simp only [chebyshev_le_iff, Int.abs_eq_natAbs, coneCell]
  obtain rfl | rfl | rfl | rfl := haxis <;> dsimp only <;> omega

theorem findLandingCandidates_congr {candidate : JumpCandidate}
    (h : ∀ c, chebyshev c candidate.takeoffCell ≤ 12 → blockAt blocks c = blockAt blocks' c) :
    findLandingCandidates candidate (cellToBlock blocks) lookup {} =
      findLandingCandidates candidate (cellToBlock blocks') lookup {} := by
  rw [findLandingCandidates_eq, findLandingCandidates_eq]
  refine List.filterMap_congr fun i hi => ?_
  rw [List.mem_product, List.mem_product, mem_rangeTo, mem_rangeTo, mem_rangeTo] at hi
  obtain ⟨hstep, hlat, hdy⟩ := hi
  unfold landingAt
  rw [infoAt_congr (h _ (chebyshev_coneCell_le (isAxis_forwardAxis candidate) hstep hlat hdy))]

theorem validateJumps_congr {replayTouchedCells : Option (List Cell)} {minGapCheb : Int}
    (h : ∀ c, withinPath 12 pathCells c = true → blockAt blocks c = blockAt blocks' c) :
    validateJumps blocks lookup pathCells replayTouchedCells {} minGapCheb =
      validateJumps blocks' lookup pathCells replayTouchedCells {} minGapCheb := by
  have hpath : ∀ c ∈ pathCells, blockAt blocks c = blockAt blocks' c := by
    intro c hc
    refine h c (withinPath_iff.mpr ⟨c, hc, ?_⟩)
    simp [chebyshev]
  unfold validateJumps
  dsimp only
  rw [← detectJumpCandidates_congr hpath]
  refine List.map_congr_left fun candidate hcand => ?_
  have htakeoff := takeoff_mem_route hcand
  rw [findLandingCandidates_congr fun c hc => h c (withinPath_iff.mpr ⟨_, htakeoff, hc⟩)]

/-- The empty cells near the path behind the origin of a block. -/
def emptyNear (pathCells : List Cell) (blocks : List MapBlock) (lookup : GeometryLookup)
    (b : MapBlock) : Nat :=
  (b.footprint lookup).tail.countP fun s => (blockAt blocks s).isNone && near pathCells s

theorem countP_checkPartialMulticell (pathCells : List Cell) (blocks : List MapBlock)
    (lookup : GeometryLookup) :
    ((checkPartialMulticell blocks lookup).countP fun f =>
        decide (f.severity = .fail) && near pathCells f.cell) =
      (blocks.map (emptyNear pathCells blocks lookup)).sum := by
  have hfst : blocks.zipIdx.map Prod.fst = blocks := List.zipIdx_map_fst 0 blocks
  unfold checkPartialMulticell
  conv_rhs => rw [← hfst, List.map_map]
  rw [List.countP_flatMap]
  refine congrArg List.sum (List.map_congr_left fun p _ => ?_)
  obtain ⟨b, place⟩ := p
  unfold emptyNear MapBlock.footprint
  dsimp only [Function.comp_apply]
  cases hinfo : b.info? lookup with
  | none => simp
  | some info =>
    dsimp only
    by_cases hshort : info.footprintX ≤ 1
    · rw [if_pos hshort, footprintShadowCells, if_pos hshort]
      simp
    · rw [if_neg hshort, List.countP_filterMap]
      refine List.countP_congr fun s _ => ?_
      unfold blockAt
      cases hocc : (cellToBlock blocks).get? s with
      | none => simp [hocc]
      | some q => by_cases hq : q.2 = place <;> simp [hocc, hq]

/-- What a filter drops from a sum of zeros. -/
theorem sum_map_filter {α : Type} {p : α → Bool} {g : α → Nat} {l : List α}
    (h : ∀ a ∈ l, p a = false → g a = 0) : ((l.filter p).map g).sum = (l.map g).sum := by
  induction l with
  | nil => rfl
  | cons a rest ih =>
    have hrest := ih fun b hb => h b (List.mem_cons_of_mem a hb)
    cases hp : p a with
    | true => rw [List.filter_cons_of_pos hp, List.map_cons, List.map_cons, List.sum_cons,
        List.sum_cons, hrest]
    | false =>
      have hzero := h a List.mem_cons_self hp
      rw [List.filter_cons_of_neg (by simp [hp]), hrest, List.map_cons, List.sum_cons, hzero,
        Nat.zero_add]

/-- A block whose footprint has a cell near the path has its origin within reach. -/
theorem emptyNear_eq_zero {L : Int} {b : MapBlock}
    (hL : ∀ info, b.info? lookup = some info → info.footprintX ≤ L)
    (hfar : withinPath (L + 2) pathCells b.cell = false) :
    emptyNear pathCells blocks lookup b = 0 := by
  refine List.countP_eq_zero.mpr fun s hs hnear => ?_
  obtain ⟨info, hinfo, -, i, hi, hlt, rfl⟩ := mem_tail_footprint_iff.mp hs
  have hlen := hL info hinfo
  rw [Bool.and_eq_true] at hnear
  obtain ⟨pc, hpc, hclose⟩ := withinPath_iff.mp hnear.2
  have hreach := chebyshev_triangle (chebyshev_shadowCell_le b.cell b.rotation i) hclose
  have hwithin : withinPath (L + 2) pathCells b.cell = true := by
    refine withinPath_iff.mpr ⟨pc, hpc, hreach.trans ?_⟩
    unfold nearRadius
    omega
  rw [hfar] at hwithin
  exact absurd hwithin Bool.false_ne_true

theorem partialHits_congr {L : Int}
    (hL : ∀ (b : MapBlock) (info : GeometryInfo), b.info? lookup = some info → info.footprintX ≤ L)
    (hreach : L + 2 ≤ radius) (hnear : 3 ≤ radius)
    (h : blocksNear radius pathCells blocks = blocksNear radius pathCells blocks') :
    (blocks.map (emptyNear pathCells blocks lookup)).sum =
      (blocks'.map (emptyNear pathCells blocks' lookup)).sum := by
  have hfar : ∀ bs : List MapBlock, ∀ b ∈ bs, withinPath radius pathCells b.cell = false →
      emptyNear pathCells blocks lookup b = 0 := by
    intro bs b _ hb
    refine emptyNear_eq_zero (hL b) (Bool.eq_false_iff.mpr fun hclose => ?_)
    rw [withinPath_mono hreach hclose] at hb
    exact absurd hb Bool.true_eq_false.mp
  have hsame : emptyNear pathCells blocks' lookup = emptyNear pathCells blocks lookup := by
    funext b
    refine List.countP_congr fun s _ => ?_
    by_cases hs : near pathCells s = true
    · rw [blockAt_congr h (withinPath_mono hnear hs)]
    · rw [Bool.eq_false_iff.mpr hs, Bool.and_false, Bool.and_false]
  rw [hsame, ← sum_map_filter (hfar blocks), ← sum_map_filter (hfar blocks')]
  exact congrArg (fun bs => (bs.map (emptyNear pathCells blocks lookup)).sum) h

end Locality

/-! ## The score -/

/-- The penalty over rationals. -/
theorem corridorValidationScore_eq (partialHits missingHits gapHits broken uncertain : Nat) :
    (corridorValidationScore partialHits missingHits gapHits broken uncertain : ℚ) =
      max 0 (min 1 (1 - (8 / 100 * (partialHits : ℚ) + 4 / 100 * (missingHits : ℚ) +
        5 / 100 * (gapHits : ℚ) + 30 / 100 * (broken : ℚ) + 8 / 100 * (uncertain : ℚ)))) := by
  have h : (corridorValidationScore partialHits missingHits gapHits broken uncertain : ℚ) =
      max ((0 : Int) : ℚ) (min ((1 : Int) : ℚ) (((1 : Int) : ℚ) -
        (((8 : Int) : ℚ) / ((100 : Int) : ℚ) * ((partialHits : Int) : ℚ) +
          ((4 : Int) : ℚ) / ((100 : Int) : ℚ) * ((missingHits : Int) : ℚ) +
          ((5 : Int) : ℚ) / ((100 : Int) : ℚ) * ((gapHits : Int) : ℚ) +
          ((30 : Int) : ℚ) / ((100 : Int) : ℚ) * ((broken : Int) : ℚ) +
          ((8 : Int) : ℚ) / ((100 : Int) : ℚ) * ((uncertain : Int) : ℚ)))) := rfl
  rw [h]
  push_cast
  rfl

/-- No hit count raises a score. -/
theorem corridorValidationScore_antitone {p p' m m' g g' b b' u u' : Nat} (hp : p ≤ p')
    (hm : m ≤ m') (hg : g ≤ g') (hb : b ≤ b') (hu : u ≤ u') :
    (corridorValidationScore p' m' g' b' u' : ℚ) ≤ corridorValidationScore p m g b u := by
  rw [corridorValidationScore_eq, corridorValidationScore_eq]
  gcongr

/-- A score between 0 and 1 that no hit count raises. -/
structure ScoredByHits (s : CorridorValidationScore ℚ) : Prop where
  nonneg : 0 ≤ s.validationScore
  le_one : s.validationScore ≤ 1
  antitone : ∀ p m g b u, s.partialMulticellHits ≤ p → s.missingSupportHits ≤ m →
    s.routeGapHits ≤ g → s.jumpLikelyBroken ≤ b → s.jumpUncertain ≤ u →
      corridorValidationScore p m g b u ≤ s.validationScore

theorem scoredByHits_of_scored {groundY maxRouteStepCheb : Int} {jumpCone : JumpConeConfig}
    {corridorId : Int} {intervalIndex : Nat} {pathCells : List Cell} {blocks : List MapBlock}
    {lookup : GeometryLookup} {replayTouchedCells : Option (List Cell)}
    {s : CorridorValidationScore ℚ}
    (h : scoreCorridorAt groundY maxRouteStepCheb jumpCone corridorId intervalIndex pathCells blocks
      lookup replayTouchedCells = some s) : ScoredByHits s := by
  unfold scoreCorridorAt at h
  split at h
  · exact absurd h nofun
  · obtain rfl := Option.some.inj h
    refine ⟨?_, ?_, fun p m g b u hp hm hg hb hu => ?_⟩
    · dsimp only
      rw [corridorValidationScore_eq]
      exact le_max_left _ _
    · dsimp only
      rw [corridorValidationScore_eq]
      exact max_le zero_le_one (min_le_left _ _)
    · exact corridorValidationScore_antitone hp hm hg hb hu

/-- How far from its path a score looks, where no footprint is longer than `L`. -/
def scoreRadius (L : Int) : Int := max 12 (L + 2)

/-- Two maps with the same blocks near the path give the path the same hit counts and the same
    score. -/
theorem scoreCorridor_local {pathCells : List Cell} {blocks blocks' : List MapBlock}
    {lookup : GeometryLookup} {L : Int} (hpath : pathCells ≠ [])
    (hL : ∀ (b : MapBlock) (info : GeometryInfo), b.info? lookup = some info → info.footprintX ≤ L)
    (h : blocksNear (scoreRadius L) pathCells blocks = blocksNear (scoreRadius L) pathCells blocks')
    (groundY maxRouteStepCheb corridorId : Int) (intervalIndex : Nat)
    (replayTouchedCells : Option (List Cell)) :
    ∃ s : CorridorValidationScore ℚ, ScoredByHits s ∧
      scoreCorridorAt groundY maxRouteStepCheb {} corridorId intervalIndex pathCells blocks lookup
        replayTouchedCells = some s ∧
      scoreCorridorAt groundY maxRouteStepCheb {} corridorId intervalIndex pathCells blocks' lookup
        replayTouchedCells = some s := by
  have hcone : 12 ≤ scoreRadius L := le_max_left _ _
  have hreach : L + 2 ≤ scoreRadius L := le_max_right _ _
  have hat : ∀ c, withinPath 12 pathCells c = true → blockAt blocks c = blockAt blocks' c :=
    fun c hc => blockAt_congr h (withinPath_mono hcone hc)
  have hsupport : checkMissingSupport pathCells (cellToBlock blocks) lookup groundY =
      checkMissingSupport pathCells (cellToBlock blocks') lookup groundY := by
    refine checkMissingSupport_congr fun c hc => ⟨hat c ?_, hat _ ?_⟩
    · exact withinPath_iff.mpr ⟨c, hc, by simp [chebyshev]⟩
    · exact withinPath_iff.mpr ⟨c, hc, by simp [chebyshev]⟩
  have hsame : scoreCorridorAt (σ := ℚ) groundY maxRouteStepCheb {} corridorId intervalIndex
      pathCells blocks lookup replayTouchedCells =
      scoreCorridorAt groundY maxRouteStepCheb {} corridorId intervalIndex pathCells blocks' lookup
        replayTouchedCells := by
    unfold scoreCorridorAt
    simp only [byCode_validateMapGeometry, countP_checkPartialMulticell, hsupport,
      validateJumps_congr hat, partialHits_congr hL hreach (by omega) h]
  obtain ⟨s, hs⟩ : ∃ s : CorridorValidationScore ℚ, scoreCorridorAt groundY maxRouteStepCheb {}
      corridorId intervalIndex pathCells blocks' lookup replayTouchedCells = some s := by
    unfold scoreCorridorAt
    rw [if_neg (by simpa using hpath)]
    exact ⟨_, rfl⟩
  exact ⟨s, scoredByHits_of_scored hs, hsame.trans hs, hs⟩

/-- A ramp on the path, and a far block that only one of two maps has. -/
def nearRamp : List MapBlock := [⟨"RoadTech", "RoadTechRamp", 4, 9, 4, 0⟩]

def withFarBlock : List MapBlock := ⟨"RoadDirt", "RoadDirtStraight", 40, 9, 4, 1⟩ :: nearRamp

theorem scoreCorridor_local_ramp :
    ∃ s : CorridorValidationScore ℚ, ScoredByHits s ∧
      scoreCorridorAt 9 1 {} 7 0 [⟨4, 9, 4⟩, ⟨5, 9, 4⟩] nearRamp rampLookup none = some s ∧
      scoreCorridorAt 9 1 {} 7 0 [⟨4, 9, 4⟩, ⟨5, 9, 4⟩] withFarBlock rampLookup none = some s := by
  refine scoreCorridor_local (L := 2) (by decide) ?_ (by decide) 9 1 7 0 none
  intro b info hinfo
  have hmem := Dict.mem_items_of_get? hinfo
  have hitems : rampLookup.items = [(("RoadTech", "RoadTechRamp"), ⟨2, .ramp, false⟩)] := rfl
  rw [hitems, List.mem_singleton, Prod.mk.injEq] at hmem
  rw [hmem.2]

end TraxMania.Generation.Validation
