import TraxMania.Catalogue.Block
import Mathlib.Data.Finset.Union
import Mathlib.Data.Finset.Lattice.Fold

/-
  The generation-time view of what was mined from the corpus: the moves of the placement grammar,
  the vocabulary grown from waypoints, mined jumps, and the two successor preferences.
-/

namespace TraxMania.Generation

open TraxMania.Grid TraxMania.Catalogue Lib

/-- One observed placement of `block` relative to a source block. -/
structure Move where
  block : String
  offset : Cell
  relRotation : Int
  mapCount : Int
  pairCount : Int
  clipMatched : Bool
deriving DecidableEq

namespace Move

/-- `is_overlay`: the same column as the source. -/
def isOverlay (m : Move) : Bool := m.offset.x == 0 && m.offset.z == 0

/-- `is_gap`: apart from the source in XZ. -/
def isGap (m : Move) : Bool := decide (1 < max m.offset.x.natAbs m.offset.z.natAbs)

/-- `apply`: where and how `block` lands. -/
def apply (m : Move) (anchor : Cell) (rotation : Int) : Cell × Int :=
  (anchor + rotateVector m.offset rotation, (rotation + m.relRotation) % 4)

end Move

/-! ## The placement grammar -/

structure PlacementGrammar where
  moves : Dict String (List Move)

namespace PlacementGrammar

/-- `successors(block_a, …)`; `overlays` and `gaps` keep what has the given value, or all. -/
def successors (g : PlacementGrammar) (blockA : String) (minMaps : Int) (allow : Finset String)
    (overlays gaps : Option Bool) : List Move :=
  ((g.moves.get? blockA).getD []).filter fun m =>
    !(m.mapCount < minMaps) && decide (m.block ∈ allow) && overlays.all (m.isOverlay == ·) &&
      gaps.all (m.isGap == ·)

/-- The loop over the moves of one block of the frontier: its first `perBlock` targets, those not
in the vocabulary. -/
def newTargets (vocab : Finset String) (perBlock : Nat) : List Move → Finset String → Finset String
  | [], _ => ∅
  | m :: ms, seen =>
    if m.block ∈ seen then newTargets vocab perBlock ms seen
    else
      let seen := insert m.block seen
      if perBlock < seen.card then ∅
      else if m.block ∈ vocab then newTargets vocab perBlock ms seen
      else insert m.block (newTargets vocab perBlock ms seen)

/-- The rounds of `route_vocabulary`. -/
def growVocabulary (g : PlacementGrammar) (allow : Finset String) (minMaps : Int) (perBlock : Nat) :
    Nat → Finset String → Finset String → Finset String
  | 0, vocab, _ => vocab
  | rounds + 1, vocab, frontier =>
    let grown := frontier.biUnion fun block =>
      newTargets vocab perBlock (g.successors block minMaps allow (some false) (some false)) ∅
    if grown = ∅ then vocab
    else g.growVocabulary allow minMaps perBlock rounds (vocab ∪ grown) grown

/-- `route_vocabulary(seeds, allow, min_maps=…)`, with four rounds of six targets a block. -/
def routeVocabulary (g : PlacementGrammar) (seeds : List String) (allow : Finset String)
    (minMaps : Int) : Finset String :=
  g.growVocabulary allow minMaps 6 4 seeds.toFinset seeds.toFinset

end PlacementGrammar

/-! ## Jumps and successor preferences -/

structure Jump where
  block : String
  offset : Cell
  relRotation : Int
  gap : Int
  mapCount : Int

structure RouteModel where
  triples : Dict (String × String) (Dict (String × Int × Int × Int × Int) Int)
  jumps : Dict String (List Jump)

namespace RouteModel

/-- `jumps_from(block, min_maps)`. -/
def jumpsFrom (model : RouteModel) (block : String) (minMaps : Int) : List Jump :=
  ((model.jumps.get? block).getD []).filter fun j => decide (minMaps ≤ j.mapCount)

variable {F : Type*} [Div F] [IntCast F] [OfScientific F]

/-- `sequence_score(before, current, candidate, offset, rel_rotation)`. -/
def sequenceScore (model : RouteModel) (before : Option String) (current candidate : String)
    (offset : Cell) (relRotation : Int) : F :=
  match before with
  | none => 0.0
  | some before =>
    match model.triples.get? (before, current) with
    | none => 0.0
    | some context =>
      match (context.items.map Prod.snd).max? with
      | none => 0.0
      | some best =>
        let seen := (context.get? (candidate, offset.x, offset.y, offset.z, relRotation)).getD 0
        if seen = 0 then 0.0 else (seen : F) / (best : F)

end RouteModel

/-- `DrivenPrior`: the share of each driven transition. -/
structure DrivenPrior (F : Type*) where
  shares : Dict String (Dict String F)

/-- `share(from_type, to_type)`. -/
def DrivenPrior.share {F : Type*} [OfScientific F] (p : DrivenPrior F) (fromType toType : String) :
    F :=
  if fromType = toType then 0.0
  else (((p.shares.get? fromType).getD Dict.empty).get? toType).getD 0.0

end TraxMania.Generation
