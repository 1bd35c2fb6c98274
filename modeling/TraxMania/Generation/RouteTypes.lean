import TraxMania.Generation.Assembly
import Mathlib.Data.Rat.Floor

/-
  What route assembly takes and returns: candidate corridors with all their columns, the inputs of
  the pure pass, the assembled route and the reasons for which there is none.
-/

namespace TraxMania.Generation

open TraxMania.Grid

deriving instance DecidableEq for Anchor

namespace Route

/-! ## Floats -/

/-- The floats of a score and of a time, with the operations that assembly uses. They are ordered
    as numbers are, so NaN is none of them. -/
class Score (σ : Type) extends LinearOrder σ, Add σ, Sub σ, Mul σ, Div σ, Neg σ, IntCast σ where
  /-- `round`. -/
  round : σ → Int
  /-- `int(x // y)`. -/
  floorDiv : σ → σ → Int

/-- Rounding to the nearest integer, ties to the even one. -/
def roundHalfEven (q : ℚ) : Int :=
  let down := q.floor
  if q - down < 1 / 2 then down
  else if 1 / 2 < q - down then down + 1
  else if down % 2 = 0 then down else down + 1

instance : Score ℚ where
  round := roundHalfEven
  floorDiv x y := (x / y).floor

example : Score.round (7 / 2 : ℚ) = 4 ∧ Score.round (5 / 2 : ℚ) = 2 := by decide +kernel

/-! ## Results -/

/-- `RejectReason`. -/
inductive RejectReason where
  | plainCpNotSupportedV0
  | missingCorridorInInterval
  | chainBroken
  | emptyCorridors
  | confidenceBelowFloor
  | unknownBlock
  | invalidSchema
  | strippedRouteBroken
  | beamExhausted
  | intervalValidationFailed
  | noValidCandidates
deriving DecidableEq

structure AssemblyError where
  reason : RejectReason
  detail : String
  intervalIndex : Option Nat
deriving DecidableEq

/-- The corridor picked for an interval. -/
structure ChosenCorridor (σ : Type) where
  corridorId : Int
  mapId : Int
  src : Anchor
  dst : Anchor
  pathCells : List Cell
  pathLength : Int
  containsVirtualEdge : Bool
  corridorConfidence : Option σ
  learnedCorridorScore : σ
  expectedTimeMs : Int
  combinedSequenceScore : Option σ
  validationScore : Option σ
deriving DecidableEq

structure IntervalAssembly (σ : Type) where
  index : Nat
  src : Anchor
  dst : Anchor
  chosen : ChosenCorridor σ
deriving DecidableEq

structure AssembledRoute (σ : Type) where
  mapId : Int
  anchors : List Anchor
  intervals : List (IntervalAssembly σ)
  cellsTotal : Int
  estimatedTimeMs : Int
  aiConfidence : σ
deriving DecidableEq

/-! ## Inputs -/

/-- A `CandidateCorridor` with all its columns. -/
structure CandidateCorridor (σ : Type) extends Generation.CandidateCorridor σ where
  corridorId : Int
  mapId : Int
  pathCells : List Cell
  pathLength : Int
  containsVirtualEdge : Bool
  corridorConfidence : Option σ
  combinedSequenceScore : Option σ := none
  validationScore : Option σ := none

/-- `(c.src.tag, c.src.order, c.dst.tag, c.dst.order)`. -/
def CandidateCorridor.intervalKey {σ : Type} (c : CandidateCorridor σ) : IntervalKey :=
  (c.src.key, c.dst.key)

structure AssemblyInputs (σ : Type) where
  mapId : Int
  isLinkedCp : Bool
  anchors : List Anchor
  candidates : List (CandidateCorridor σ)
  randomSeed : Int := 0
  topKCandidates : Int := 1
  useValidationTieBreak : Bool := false

/-- A candidate that passed the `learned_corridor_score is not None` filter, with its score. -/
structure ScoredCorridor (σ : Type) where
  corridor : CandidateCorridor σ
  learned : σ
  scored : corridor.learnedCorridorScore = some learned

/-- The filter itself. -/
def CandidateCorridor.scored? {σ : Type} (c : CandidateCorridor σ) : Option (ScoredCorridor σ) :=
  match h : c.learnedCorridorScore with
  | some s => some ⟨c, s, h⟩
  | none => none

variable {σ : Type}

theorem ScoredCorridor.ext {a b : ScoredCorridor σ} (h : a.corridor = b.corridor) : a = b := by
  obtain ⟨c, s, hs⟩ := a
  obtain ⟨d, t, ht⟩ := b
  obtain rfl : c = d := h
  obtain rfl : s = t := Option.some.inj (hs.symm.trans ht)
  rfl

theorem scored?_eq_some {c : CandidateCorridor σ} {p : ScoredCorridor σ} :
    c.scored? = some p ↔ p.corridor = c := by
  unfold CandidateCorridor.scored?
  split
  · next s hs =>
    rw [Option.some_inj]
    constructor
    · rintro rfl
      rfl
    · intro h
      exact ScoredCorridor.ext h.symm
  · next hnone =>
    constructor
    · intro h
      cases h
    · rintro rfl
      have hp := p.scored
      rw [hnone] at hp
      cases hp

theorem scored?_eq_none {c : CandidateCorridor σ} :
    c.scored? = none ↔ c.learnedCorridorScore = none := by
  unfold CandidateCorridor.scored?
  split
  · next s hs => simp [hs]
  · next hnone => simp [hnone]

end Route

end TraxMania.Generation
