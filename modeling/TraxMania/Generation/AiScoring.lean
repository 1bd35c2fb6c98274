import TraxMania.Generation.CorridorScore

/-
  The scorer of the block-by-block generator: the priors, the weights, the cells of a block's mesh
  and `score_candidate` with its breakdown.
-/

namespace TraxMania.Generation.Ai

open TraxMania.Grid Lib Route Validation

/-! ## Floats -/

/-- Floats that can be rounded to decimals. -/
class Decimals (σ : Type) extends Score σ where
  /-- `round(x, digits)`. -/
  roundTo : σ → Nat → σ

instance decimalsRat : Decimals ℚ where
  roundTo x digits := (Score.round (x * 10 ^ digits) : ℚ) / 10 ^ digits

section Constants

variable {σ : Type} [Score σ]

/-- A decimal constant of the module. -/
def tenths (n : Int) : σ := (n : σ) / ((10 : Int) : σ)

def zero : σ := ((0 : Int) : σ)

def one : σ := ((1 : Int) : σ)

/-- `max(0.0, min(1.0, x))`. -/
def clamp01 (x : σ) : σ := max zero (min one x)

end Constants

/-- `(block_family, block_name)`. -/
abbrev BlockName := String × String

/-! ## Weights and breakdowns -/

/-- The tiers of a score: what `ai_score_breakdown` and the weights are keyed by. -/
structure Tiers (σ : Type) where
  pairPrior : σ
  triplePrior : σ
  connector : σ
  traversability : σ
  sequence : σ
  diversityPenalty : σ
  validationPenalty : σ
deriving DecidableEq

/-- `{k: round(v, 6) for k, v in breakdown.items()}`. -/
def Tiers.rounded {σ : Type} [Decimals σ] (t : Tiers σ) : Tiers σ where
  pairPrior := Decimals.roundTo t.pairPrior 6
  triplePrior := Decimals.roundTo t.triplePrior 6
  connector := Decimals.roundTo t.connector 6
  traversability := Decimals.roundTo t.traversability 6
  sequence := Decimals.roundTo t.sequence 6
  diversityPenalty := Decimals.roundTo t.diversityPenalty 6
  validationPenalty := Decimals.roundTo t.validationPenalty 6

/-- `AI_GENERATOR_WEIGHTS`, in tenths. -/
def aiGeneratorWeightTenths : Tiers Int where
  pairPrior := 10
  triplePrior := 7
  connector := 5
  traversability := 5
  sequence := 3
  diversityPenalty := 3
  validationPenalty := 4

/-- `AI_GENERATOR_WEIGHTS`. -/
def aiGeneratorWeights {σ : Type} [Score σ] : Tiers σ where
  pairPrior := tenths aiGeneratorWeightTenths.pairPrior
  triplePrior := tenths aiGeneratorWeightTenths.triplePrior
  connector := tenths aiGeneratorWeightTenths.connector
  traversability := tenths aiGeneratorWeightTenths.traversability
  sequence := tenths aiGeneratorWeightTenths.sequence
  diversityPenalty := tenths aiGeneratorWeightTenths.diversityPenalty
  validationPenalty := tenths aiGeneratorWeightTenths.validationPenalty

/-- `positive_weight_sum`, in tenths: the tiers of `_POSITIVE_WEIGHT_KEYS`. -/
def positiveWeightTenths : Int :=
  aiGeneratorWeightTenths.pairPrior + aiGeneratorWeightTenths.triplePrior +
    aiGeneratorWeightTenths.connector + aiGeneratorWeightTenths.traversability +
    aiGeneratorWeightTenths.sequence

/-! ## Blocks and what the corpus knows of them -/

/-- A synthesised block of the artifact. -/
structure AiBlock (σ : Type) extends MapBlock where
  aiScore : σ
  aiScoreBreakdown : Tiers σ
deriving DecidableEq

/-- `_CatalogueEntry`. -/
structure CatalogueEntry where
  family : String
  name : String
  info : GeometryInfo

def CatalogueEntry.key (e : CatalogueEntry) : BlockName := (e.family, e.name)

/-- `_CandidateBlock`. -/
structure CandidateBlock extends CatalogueEntry where
  cell : Cell
  rotation : Int

/-- `_ShapeSurface`. -/
structure ShapeSurface where
  shapeClass : ShapeClass
  surfaceHint : String

/-- `_load_pair_priors`: for every block the share of each successor. -/
abbrev PairPriors (σ : Type) := Dict BlockName (Dict BlockName σ)

/-- `_load_triple_priors`. -/
abbrev TriplePriors (σ : Type) := Dict (BlockName × BlockName) (Dict BlockName σ)

abbrev ShapeSurfaceLookup := Dict BlockName ShapeSurface

/-- `_SHAPE_COMPATIBLE_PAIRS`. -/
def shapeCompatiblePairs : List (ShapeClass × ShapeClass) :=
  [(.straight, .straight), (.curve, .straight), (.straight, .curve), (.curve, .curve),
    (.platform, .platform),
    (.ramp, .straight), (.straight, .ramp), (.ramp, .curve), (.curve, .ramp),
    (.ramp, .platform), (.platform, .ramp), (.ramp, .ramp),
    (.straight, .loop), (.loop, .straight), (.ramp, .loop), (.loop, .ramp), (.loop, .loop),
    (.start, .straight), (.start, .ramp), (.start, .curve), (.start, .platform),
    (.checkpoint, .straight), (.straight, .checkpoint), (.checkpoint, .ramp), (.ramp, .checkpoint),
    (.checkpoint, .curve), (.curve, .checkpoint), (.checkpoint, .platform),
    (.platform, .checkpoint), (.checkpoint, .checkpoint),
    (.finish, .straight), (.straight, .finish), (.finish, .ramp), (.ramp, .finish),
    (.gate, .straight), (.straight, .gate), (.gate, .ramp), (.ramp, .gate),
    (.gate, .checkpoint), (.checkpoint, .gate)]

/-! ## Footprints -/

/-- `_footprint_cells`, the generator's own copy of `_footprint_shadow_cells`. -/
def footprintCells (origin : Cell) (rotation footprintX : Int) : List Cell :=
  footprintShadowCells origin rotation footprintX

section Scoring

variable {σ : Type} [Score σ]

/-- `_shadow_cells_clear`. -/
def shadowCellsClear (cand : CandidateBlock) (occupied : Finset Cell) : σ :=
  if cand.info.footprintX ≤ 1 then zero
  else
    let shadow := (footprintCells cand.cell cand.rotation cand.info.footprintX).tail
    if shadow.isEmpty then zero
    else
      let collisions := shadow.countP fun c => decide (c ∈ occupied)
      ((collisions : Int) : σ) / ((shadow.length : Int) : σ)

/-! ## The score of a candidate -/

/-- `_sequence_pair_score`. -/
def sequencePairScore (prev : Option ShapeSurface) (cand : ShapeSurface) : σ :=
  match prev with
  | none => zero
  | some prev =>
    clamp01 <|
      if prev.shapeClass = .unknown ∨ cand.shapeClass = .unknown then tenths 4 - tenths 1
      else
        let base : σ := tenths 4
        let shaped :=
          if (prev.shapeClass, cand.shapeClass) ∈ shapeCompatiblePairs then base + tenths 3
          else base
        if prev.surfaceHint ≠ "" ∧ cand.surfaceHint ≠ "" ∧ prev.surfaceHint = cand.surfaceHint then
          shaped + tenths 3
        else shaped

/-- What the scorer knows besides the path: `triple_priors` and `shape_surface_lookup` may be
    missing. -/
structure Priors (σ : Type) where
  pair : PairPriors σ
  triple : Option (TriplePriors σ)
  shapeSurface : Option ShapeSurfaceLookup

/-- `pair_prior` of the breakdown. -/
def pairPriorOf (priors : Priors σ) (prev : Option BlockName) (cand : BlockName) : σ :=
  match prev with
  | none => zero
  | some prev => (((priors.pair.get? prev).bind fun d => d.get? cand)).getD zero

/-- `triple_prior` of the breakdown. -/
def triplePriorOf (priors : Priors σ) (prev prevPrev : Option BlockName) (cand : BlockName) : σ :=
  match priors.triple, prev, prevPrev with
  | some triple, some prev, some prevPrev =>
    ((triple.get? (prevPrev, prev)).bind fun d => d.get? cand).getD zero
  | _, _, _ => zero

/-- `sequence` of the breakdown. -/
def sequenceOf (priors : Priors σ) (prev : Option BlockName) (cand : BlockName) : σ :=
  match priors.shapeSurface, prev with
  | some lookup, some prev =>
    match lookup.get? cand with
    | none => zero
    | some surface => sequencePairScore (lookup.get? prev) surface
  | _, _ => zero

/-- `diversity_penalty` of the breakdown: how much of the path is this block already. -/
def diversityPenaltyOf (pathSoFar : List (AiBlock σ)) (cand : BlockName) : σ :=
  if pathSoFar.isEmpty then zero
  else
    let same := pathSoFar.countP fun b => decide ((b.family, b.name) = cand)
    ((same : Int) : σ) / ((max 1 pathSoFar.length : Nat) : Int)

/-- The breakdown of `score_candidate`. -/
def breakdownOf (priors : Priors σ) (cand : CandidateBlock) (prev prevPrev : Option BlockName)
    (pathSoFar : List (AiBlock σ)) (occupied : Finset Cell) : Tiers σ :=
  let pairPrior := pairPriorOf priors prev cand.key
  { pairPrior := pairPrior
    triplePrior := triplePriorOf priors prev prevPrev cand.key
    connector := one
    traversability := if zero < pairPrior then one else zero
    sequence := sequenceOf priors prev cand.key
    diversityPenalty := diversityPenaltyOf pathSoFar cand.key
    validationPenalty := shadowCellsClear cand occupied }

/-- The weighted sum of the tiers. -/
def weighted (weights t : Tiers σ) : σ :=
  weights.pairPrior * t.pairPrior + weights.triplePrior * t.triplePrior +
    weights.connector * t.connector + weights.traversability * t.traversability +
    weights.sequence * t.sequence - weights.diversityPenalty * t.diversityPenalty -
    weights.validationPenalty * t.validationPenalty

/-- `score_candidate`. -/
def scoreCandidate (weights : Tiers σ) (priors : Priors σ) (cand : CandidateBlock)
    (prev prevPrev : Option BlockName) (pathSoFar : List (AiBlock σ)) (occupied : Finset Cell) :
    σ × Tiers σ :=
  let breakdown := breakdownOf priors cand prev prevPrev pathSoFar occupied
  (weighted weights breakdown, breakdown)

end Scoring

end TraxMania.Generation.Ai
