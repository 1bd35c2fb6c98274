import TraxMania.Generation.AiScoring
import Mathlib.Data.List.MinMax

/-
  The beam search of the block-by-block generator: one interval from a source anchor towards a
  destination anchor. Every beam keeps the height of the source, so an interval that is not
  rejected arrives at the destination exactly when the two anchors are level.
-/

namespace TraxMania.Generation.Ai

open TraxMania.Grid Lib Lib.SortBy Route Validation

/-! ## Directions -/

/-- `_DIR_BY_ROT[rotation & 0b11]`. -/
def dirByRot (rotation : Int) : Int × Int :=
  match rotation % 4 with
  | 0 => (1, 0)
  | 1 => (0, 1)
  | 2 => (-1, 0)
  | _ => (0, -1)

/-- `_advance`. -/
def advance (cell : Cell) (rotation : Int) : Cell :=
  ⟨cell.x + (dirByRot rotation).1, cell.y, cell.z + (dirByRot rotation).2⟩

/-- `_direction_toward`. -/
def directionToward (src dst : Cell) : Int :=
  let dx := dst.x - src.x
  let dz := dst.z - src.z
  if |dz| ≤ |dx| then if 0 ≤ dx then 0 else 2
  else if 0 ≤ dz then 1 else 3

/-- The test that all three arrival checks make. -/
def ArrivedXZ (cell dst : Cell) : Prop := max |dst.x - cell.x| |dst.z - cell.z| ≤ 1

instance decidableArrivedXZ (cell dst : Cell) : Decidable (ArrivedXZ cell dst) :=
  inferInstanceAs (Decidable (_ ≤ _))

/-! ## Beams -/

/-- `xs[:n]`. -/
def sliceTo {α : Type} (xs : List α) (n : Int) : List α :=
  if 0 ≤ n then xs.take n.toNat else xs.take (xs.length - (-n).toNat)

theorem mem_of_mem_sliceTo {α : Type} {xs : List α} {n : Int} {a : α} (h : a ∈ sliceTo xs n) :
    a ∈ xs := by
  unfold sliceTo at h
  split at h
  · exact List.mem_of_mem_take h
  · exact List.mem_of_mem_take h

/-- `_Beam`. -/
structure Beam (σ : Type) where
  blocks : List (AiBlock σ)
  pathCells : List Cell
  intervalCells : Finset Cell
  scoreSum : σ
  currentCell : Cell
  prevBlock : Option BlockName
  prevPrevBlock : Option BlockName

namespace Beam

variable {σ : Type}

def depth (b : Beam σ) : Nat := b.blocks.length

/-- `_beam_reached_dst`. -/
def ReachedDst (b : Beam σ) (dst : Cell) : Prop := 0 < b.depth ∧ ArrivedXZ b.currentCell dst

instance decidableReachedDst (b : Beam σ) (dst : Cell) : Decidable (b.ReachedDst dst) :=
  inferInstanceAs (Decidable (_ ∧ _))

/-- The key by which the best beam is chosen: its mean score, then the shorter one. -/
def rank [Score σ] (b : Beam σ) : σ ×ₗ Int :=
  toLex (b.scoreSum / (((max 1 b.depth : Nat) : Int) : σ), -(b.depth : Int))

/-- Ranks compare as tuples. -/
instance rankPreorder [Score σ] : Preorder (σ ×ₗ Int) :=
  (@Prod.Lex.instLinearOrder σ Int _ Int.instLinearOrder).toPartialOrder.toPreorder

end Beam

/-- The arguments of `_generate_interval`, without the occupied cells. -/
structure IntervalArgs (σ : Type) where
  srcCell : Cell
  dstCell : Cell
  srcBlock : Option BlockName
  catalogue : List CatalogueEntry
  priors : Priors σ
  maxDepth : Int
  weights : Tiers σ
  beamWidth : Int := 1
  topNChildren : Int := 8

/-- `_IntervalResult`. -/
structure IntervalResult (σ : Type) where
  blocks : List (AiBlock σ)
  pathCells : List Cell
  scoreSum : σ
  scoreCount : Nat
  rejectReason : Option RejectReason
  detail : Option String

section Search

variable {σ : Type} [Decimals σ]

/-- One entry of `scored`: the catalogue entry, its score and the block it would place. -/
structure ScoredEntry (σ : Type) where
  score : σ
  block : AiBlock σ
  entry : CatalogueEntry

/-- The body of `for entry in catalogue`. -/
def scoreEntry (args : IntervalArgs σ) (occupied : Finset Cell) (beam : Beam σ) (nextCell : Cell)
    (rotation : Int) (entry : CatalogueEntry) : ScoredEntry σ :=
  let s := scoreCandidate args.weights args.priors ⟨entry, nextCell, rotation⟩ beam.prevBlock
    beam.prevPrevBlock beam.blocks (occupied ∪ beam.intervalCells)
  { score := s.1
    block :=
      { family := entry.family, name := entry.name, x := nextCell.x, y := nextCell.y,
        z := nextCell.z, rotation := rotation, aiScore := Decimals.roundTo s.1 6,
        aiScoreBreakdown := s.2.rounded }
    entry := entry }

/-- The successor of a beam by one scored entry. -/
def childBeam (beam : Beam σ) (nextCell : Cell) (rotation : Int) (s : ScoredEntry σ) : Beam σ where
  blocks := beam.blocks ++ [s.block]
  pathCells := beam.pathCells ++ [nextCell]
  intervalCells :=
    beam.intervalCells ∪ (footprintCells nextCell rotation s.entry.info.footprintX).toFinset
  scoreSum := beam.scoreSum + s.score
  currentCell := nextCell
  prevBlock := some (s.block.family, s.block.name)
  prevPrevBlock := beam.prevBlock

/-- `_expand_beam`. -/
def expandBeam (args : IntervalArgs σ) (occupied : Finset Cell) (beam : Beam σ) : List (Beam σ) :=
  let rotation := directionToward beam.currentCell args.dstCell
  let nextCell := advance beam.currentCell rotation
  if nextCell ∈ occupied ∨ nextCell ∈ beam.intervalCells then []
  else
    let scored := args.catalogue.map (scoreEntry args occupied beam nextCell rotation)
    (sliceTo (sortBy (fun s => -s.score) scored) args.topNChildren).map
      (childBeam beam nextCell rotation)

/-- The variables of the search. -/
structure BeamSearch (σ : Type) where
  live : List (Beam σ)
  completed : List (Beam σ)
  anyStepSucceeded : Bool

/-- The beams of `live` that are moved to `completed`. -/
def arrivedBeams (dst : Cell) (live : List (Beam σ)) : List (Beam σ) :=
  live.filter fun b => decide (b.ReachedDst dst)

/-- `next_live`. -/
def nextLive (dst : Cell) (live : List (Beam σ)) : List (Beam σ) :=
  live.filter fun b => !decide (b.ReachedDst dst)

/-- `for _ in range(max_depth)`; on a `break` the live beams stay as they are. -/
def searchBeams (args : IntervalArgs σ) (occupied : Finset Cell) :
    Nat → BeamSearch σ → BeamSearch σ
  | 0, s => s
  | turns + 1, s =>
    -- without a next live beam there is no child either, so both tests of the loop are this one
    let completed := s.completed ++ arrivedBeams args.dstCell s.live
    let children := (nextLive args.dstCell s.live).flatMap (expandBeam args occupied)
    if children = [] then { s with completed := completed }
    else
      searchBeams args occupied turns
        ⟨sliceTo (sortBy (fun b => -b.scoreSum) children) args.beamWidth, completed, true⟩

/-- `initial`. -/
def initialBeam (args : IntervalArgs σ) : Beam σ where
  blocks := []
  pathCells := [args.srcCell]
  intervalCells := ∅
  scoreSum := zero
  currentCell := args.srcCell
  prevBlock := args.srcBlock
  prevPrevBlock := none

/-- The search after its loop and the sweep over the beams at the depth cap. -/
def searched (args : IntervalArgs σ) (occupied : Finset Cell) : BeamSearch σ :=
  let s := searchBeams args occupied args.maxDepth.toNat ⟨[initialBeam args], [], false⟩
  { s with completed := s.completed ++ arrivedBeams args.dstCell s.live }

/-- `result` before anything is placed. -/
def emptyResult (args : IntervalArgs σ) : IntervalResult σ :=
  ⟨[], [args.srcCell], zero, 0, none, none⟩

/-- `result` with the blocks and cells of a beam. -/
def resultOf (b : Beam σ) (rejectReason : Option RejectReason) (detail : Option String) :
    IntervalResult σ :=
  ⟨b.blocks, b.pathCells, b.scoreSum, b.depth, rejectReason, detail⟩

def noCandidatesDetail (args : IntervalArgs σ) : String :=
  "first-step expansion produced zero candidates (src=" ++ cellText args.srcCell ++ " dst=" ++
    cellText args.dstCell ++ "); likely an occupancy conflict or empty catalogue"

def exhaustedDetail (args : IntervalArgs σ) : String :=
  "no beam reached cheb=1 of " ++ cellText args.dstCell ++ " within max_depth=" ++
    toString args.maxDepth ++ " (beam_width=" ++ toString args.beamWidth ++ ", top_n_children=" ++
    toString args.topNChildren ++ ")"

/-- The result when no beam completed. -/
def rejectedResult (args : IntervalArgs σ) (s : BeamSearch σ) : IntervalResult σ :=
  if s.anyStepSucceeded then
    match s.live.argmax Beam.rank with
    | none => { emptyResult args with
        rejectReason := some .beamExhausted, detail := some (exhaustedDetail args) }
    | some b => resultOf b (some .beamExhausted) (some (exhaustedDetail args))
  else { emptyResult args with
    rejectReason := some .noValidCandidates, detail := some (noCandidatesDetail args) }

/-- `_generate_interval`, with the occupied cells after it. -/
def generateInterval (args : IntervalArgs σ) (occupied : Finset Cell) :
    IntervalResult σ × Finset Cell :=
  if ArrivedXZ args.srcCell args.dstCell then (emptyResult args, occupied)
  else
    let s := searched args occupied
    match s.completed.argmax Beam.rank with
    | none => (rejectedResult args s, occupied)
    | some best => (resultOf best none none, occupied ∪ best.intervalCells)

/-! ## A beam stays level -/

/-- A beam that set out from `src`: its path ends where it stands, at the height of `src`. -/
structure Beam.WalkedFrom (src : Cell) (b : Beam σ) : Prop where
  last : b.pathCells.getLast? = some b.currentCell
  level : b.currentCell.y = src.y

theorem walkedFrom_initial (args : IntervalArgs σ) :
    (initialBeam args).WalkedFrom args.srcCell where
  last := rfl
  level := rfl

theorem walkedFrom_expand {args : IntervalArgs σ} {occupied : Finset Cell} {b child : Beam σ}
    (hb : b.WalkedFrom args.srcCell) (h : child ∈ expandBeam args occupied b) :
    child.WalkedFrom args.srcCell := by
  unfold expandBeam at h
  simp only at h
  split at h
  · cases h
  · obtain ⟨s, -, rfl⟩ := List.mem_map.mp h
    -- a step changes `x` or `z` only
    have hlevel : (advance b.currentCell (directionToward b.currentCell args.dstCell)).y =
        args.srcCell.y := hb.level
    exact ⟨List.getLast?_concat, hlevel⟩

/-- What holds of the search after any number of turns. -/
structure SearchInv (args : IntervalArgs σ) (s : BeamSearch σ) : Prop where
  live : ∀ b ∈ s.live, b.WalkedFrom args.srcCell
  completed : ∀ b ∈ s.completed, b.WalkedFrom args.srcCell ∧ b.ReachedDst args.dstCell

omit [Decimals σ] in
theorem completed_append_arrived {args : IntervalArgs σ} {s : BeamSearch σ}
    (h : SearchInv args s) (b : Beam σ)
    (hb : b ∈ s.completed ++ arrivedBeams args.dstCell s.live) :
    b.WalkedFrom args.srcCell ∧ b.ReachedDst args.dstCell := by
  rcases List.mem_append.mp hb with hb | hb
  · exact h.completed b hb
  · obtain ⟨hlive, hreached⟩ := List.mem_filter.mp hb
    exact ⟨h.live b hlive, of_decide_eq_true hreached⟩

theorem searchBeams_inv {args : IntervalArgs σ} (occupied : Finset Cell) (turns : Nat)
    {s : BeamSearch σ} (h : SearchInv args s) :
    SearchInv args (searchBeams args occupied turns s) := by
  induction turns generalizing s with
  | zero => exact h
  | succ turns ih =>
    unfold searchBeams
    simp only
    split
    · exact ⟨h.live, completed_append_arrived h⟩
    · apply ih
      refine ⟨fun b hb => ?_, completed_append_arrived h⟩
      have hchild := (mem_sortBy _ _ _).mp (mem_of_mem_sliceTo hb)
      obtain ⟨parent, hparent, hb⟩ := List.mem_flatMap.mp hchild
      exact walkedFrom_expand (h.live parent (List.mem_of_mem_filter hparent)) hb

theorem searched_inv (args : IntervalArgs σ) (occupied : Finset Cell) :
    SearchInv args (searched args occupied) := by
  have hinit : SearchInv args ⟨[initialBeam args], [], false⟩ := by
    refine ⟨fun b hb => ?_, fun b hb => absurd hb List.not_mem_nil⟩
    rw [List.mem_singleton.mp hb]
    exact walkedFrom_initial args
  have h := searchBeams_inv occupied args.maxDepth.toNat hinit
  exact ⟨h.live, completed_append_arrived h⟩

theorem rejectedResult_reason (args : IntervalArgs σ) (s : BeamSearch σ) :
    (rejectedResult args s).rejectReason ≠ none := by
  unfold rejectedResult
  split
  · split
    · exact Option.some_ne_none _
    · exact Option.some_ne_none _
  · exact Option.some_ne_none _

/-- How `_generate_interval` ends: with nothing to place, with a completed beam, or rejected. -/
theorem generateInterval_cases (args : IntervalArgs σ) (occupied : Finset Cell) :
    (ArrivedXZ args.srcCell args.dstCell ∧
        generateInterval args occupied = (emptyResult args, occupied)) ∨
      (¬ ArrivedXZ args.srcCell args.dstCell ∧ ∃ best ∈ (searched args occupied).completed,
        generateInterval args occupied =
          (resultOf best none none, occupied ∪ best.intervalCells)) ∨
      (¬ ArrivedXZ args.srcCell args.dstCell ∧
        generateInterval args occupied = (rejectedResult args (searched args occupied), occupied)) := by
  unfold generateInterval
  by_cases htrivial : ArrivedXZ args.srcCell args.dstCell
  · exact Or.inl ⟨htrivial, if_pos htrivial⟩
  · rw [if_neg htrivial]
    cases hbest : (searched args occupied).completed.argmax Beam.rank with
    | none => exact Or.inr (Or.inr ⟨htrivial, by simp only [hbest]⟩)
    | some best =>
      exact Or.inr (Or.inl ⟨htrivial, best, List.argmax_mem hbest, by simp only [hbest]⟩)

/-- An interval that is not rejected ends over or under the destination, at the source's height. -/
theorem generateInterval_ends {args : IntervalArgs σ} {occupied : Finset Cell}
    (h : (generateInterval args occupied).1.rejectReason = none) :
    ∃ cell, (generateInterval args occupied).1.pathCells.getLast? = some cell ∧
      cell.y = args.srcCell.y ∧ ArrivedXZ cell args.dstCell := by
  rcases generateInterval_cases args occupied with ⟨hnear, heq⟩ | ⟨-, best, hbest, heq⟩ | ⟨-, heq⟩
  · rw [heq]
    exact ⟨args.srcCell, rfl, rfl, hnear⟩
  · rw [heq]
    obtain ⟨hwalked, hreached⟩ := (searched_inv args occupied).completed best hbest
    exact ⟨best.currentCell, hwalked.last, hwalked.level, hreached.2⟩
  · rw [heq] at h
    exact absurd h (rejectedResult_reason args _)

/-- Nothing is rejected when there is nothing to place. -/
theorem not_near_of_rejected {args : IntervalArgs σ} {occupied : Finset Cell}
    (h : (generateInterval args occupied).1.rejectReason ≠ none) :
    ¬ ArrivedXZ args.srcCell args.dstCell := by
  rcases generateInterval_cases args occupied with ⟨-, heq⟩ | ⟨hfar, -⟩ | ⟨hfar, -⟩
  · rw [heq] at h
    exact absurd rfl h
  · exact hfar
  · exact hfar

/-- An interval that is not rejected places no block exactly when its ends stand together. -/
theorem generateInterval_scoreCount {args : IntervalArgs σ} {occupied : Finset Cell}
    (h : (generateInterval args occupied).1.rejectReason = none) :
    (generateInterval args occupied).1.scoreCount = 0 ↔ ArrivedXZ args.srcCell args.dstCell := by
  rcases generateInterval_cases args occupied with
    ⟨hnear, heq⟩ | ⟨hfar, best, hbest, heq⟩ | ⟨-, heq⟩
  · rw [heq]
    exact iff_of_true rfl hnear
  · rw [heq]
    have hplaced : 0 < best.depth :=
      ((searched_inv args occupied).completed best hbest).2.1
    exact iff_of_false (Nat.pos_iff_ne_zero.mp hplaced) hfar
  · rw [heq] at h
    exact absurd h (rejectedResult_reason args _)

/-- The last cell of the path is next to the destination. -/
def IntervalResult.Arrives (r : IntervalResult σ) (dst : Cell) : Prop :=
  ∃ cell, r.pathCells.getLast? = some cell ∧ chebyshev cell dst ≤ 1

/-- An interval that is not rejected arrives exactly when its anchors are level. -/
theorem generateInterval_arrives_iff (args : IntervalArgs σ) (occupied : Finset Cell)
    (h : (generateInterval args occupied).1.rejectReason = none) :
    (generateInterval args occupied).1.Arrives args.dstCell ↔
      |args.dstCell.y - args.srcCell.y| ≤ 1 := by
  obtain ⟨cell, hlast, hlevel, hnear⟩ := generateInterval_ends h
  have harrives : (generateInterval args occupied).1.Arrives args.dstCell ↔
      chebyshev cell args.dstCell ≤ 1 := by
    constructor
    · intro ⟨cell', hlast', hcheb⟩
      rw [hlast] at hlast'
      rwa [Option.some.inj hlast']
    · intro hcheb
      exact ⟨cell, hlast, hcheb⟩
  rw [harrives, chebyshev, ← hlevel]
  unfold ArrivedXZ at hnear
  rw [abs_sub_comm cell.x, abs_sub_comm cell.y, abs_sub_comm cell.z]
  omega

end Search

/-! ## A walk that ends under its destination -/

/-- One straight block on empty ground, from an anchor to one `climb` rows higher. -/
def straightWalk (climb : Int) : IntervalArgs ℚ where
  srcCell := ⟨10, 9, 10⟩
  dstCell := ⟨13, 9 + climb, 10⟩
  srcBlock := some ("Road", "RoadStart")
  catalogue := [⟨"Road", "RoadStraight", ⟨1, .straight, false⟩⟩]
  priors := ⟨Dict.empty, none, none⟩
  maxDepth := 12
  weights := aiGeneratorWeights
  beamWidth := 3

theorem generateInterval_arrives_level :
    (generateInterval (straightWalk 0) ∅).1.rejectReason = none ∧
      ((generateInterval (straightWalk 0) ∅).1.Arrives (straightWalk 0).dstCell ↔
        |(straightWalk 0).dstCell.y - (straightWalk 0).srcCell.y| ≤ 1) :=
  have h : (generateInterval (straightWalk 0) ∅).1.rejectReason = none := by decide +kernel
  ⟨h, generateInterval_arrives_iff (straightWalk 0) ∅ h⟩

/-- The walk towards an anchor three rows up is accepted, three rows below it. -/
theorem generateInterval_climb_not_arrives :
    (generateInterval (straightWalk 3) ∅).1.rejectReason = none ∧
      ¬ (generateInterval (straightWalk 3) ∅).1.Arrives (straightWalk 3).dstCell := by
  have hpath : (generateInterval (straightWalk 3) ∅).1.pathCells =
      [⟨10, 9, 10⟩, ⟨11, 9, 10⟩, ⟨12, 9, 10⟩] := by decide +kernel
  refine ⟨by decide +kernel, ?_⟩
  intro ⟨cell, hlast, hcheb⟩
  rw [hpath] at hlast
  obtain rfl : (⟨12, 9, 10⟩ : Cell) = cell := Option.some.inj hlast
  revert hcheb
  decide

end TraxMania.Generation.Ai
