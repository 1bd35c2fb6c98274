import TraxMania.Generation.GrammarRoute

/-
  The U-turn filter of the grammar walker. A move's offset is read in its source block's frame, so
  the offset that undoes it is read in the frame of the block it places: `reverseOffset`. The moves
  `_candidates` leaves out for it are those that would land on the anchor just left.
-/

namespace TraxMania.Generation.GrammarWalk

open TraxMania.Grid TraxMania.Catalogue

/-! ## Turns of a displacement -/

/-- One turn after another. -/
theorem rotateVector_rotateVector (v : Cell) (d e : Int) :
    rotateVector (rotateVector v d) e = rotateVector v (d + e) := by
  have hone : ∀ v : Cell, ∀ d : Int, rotateVector (rotateVector v d) 1 = rotateVector v (d + 1) :=
    fun v d => (rotateVector_succ v d).symm
  have htwo : ∀ v : Cell, rotateVector v 2 = rotateVector (rotateVector v 1) 1 :=
    fun v => rotateVector_succ v 1
  have hthree : ∀ v : Cell, rotateVector v 3 = rotateVector (rotateVector v 2) 1 :=
    fun v => rotateVector_succ v 2
  rw [← rotateVector_mod _ e, ← rotateVector_mod v (d + e)]
  rcases mod_four_cases e with h | h | h | h
  · have hsum : (d + e) % 4 = d % 4 := by omega
    rw [h, hsum, rotateVector_mod, rotateVector_of_zero (by decide)]
  · have hsum : (d + e) % 4 = (d + 1) % 4 := by omega
    rw [h, hsum, rotateVector_mod, hone]
  · have hsum : (d + e) % 4 = (d + 1 + 1) % 4 := by omega
    rw [h, hsum, rotateVector_mod, htwo, hone v d, hone v (d + 1)]
  · have hsum : (d + e) % 4 = (d + 1 + 1 + 1) % 4 := by omega
    rw [h, hsum, rotateVector_mod, hthree, htwo, hone v d, hone v (d + 1), hone v (d + 1 + 1)]

theorem rotateVector_neg (v : Cell) (d : Int) :
    rotateVector ⟨-v.x, -v.y, -v.z⟩ d =
      ⟨-(rotateVector v d).x, -(rotateVector v d).y, -(rotateVector v d).z⟩ := by
  rcases mod_four_cases d with h | h | h | h
  · simp only [rotateVector_of_zero h]
  · simp only [rotateVector_of_one h]
  · simp only [rotateVector_of_two h]
  · simp only [rotateVector_of_three h]

/-! ## The offset that undoes a move -/

/-- In the frame of the placed block, the reverse offset is the step back. -/
theorem rotateVector_reverseOffset (m : Move) (rotation : Int) :
    rotateVector (reverseOffset m) ((rotation + m.relRotation) % 4) =
      ⟨-(rotateVector m.offset rotation).x, -(rotateVector m.offset rotation).y,
        -(rotateVector m.offset rotation).z⟩ := by
  unfold reverseOffset
  have hturn : ((4 - m.relRotation) % 4 + (rotation + m.relRotation) % 4) % 4 = rotation % 4 := by
    omega
  rw [rotateVector_rotateVector, ← rotateVector_mod, hturn, rotateVector_mod, rotateVector_neg]

/-- The moves that land on the anchor just left are those with the reverse offset. -/
theorem apply_apply_eq_iff (m back : Move) (source : Cell) (rotation : Int) :
    (back.apply (m.apply source rotation).1 (m.apply source rotation).2).1 = source ↔
      back.offset = reverseOffset m := by
  have hback := rotateVector_reverseOffset m rotation
  show source + rotateVector m.offset rotation +
      rotateVector back.offset ((rotation + m.relRotation) % 4) = source ↔ _
  constructor
  · intro h
    refine rotateVector_injective (d := (rotation + m.relRotation) % 4) ?_
    rw [hback]
    have hx := congrArg Cell.x h
    have hy := congrArg Cell.y h
    have hz := congrArg Cell.z h
    simp only [Cell.add_x, Cell.add_y, Cell.add_z] at hx hy hz
    exact Cell.ext (by dsimp only; omega) (by dsimp only; omega) (by dsimp only; omega)
  · intro h
    rw [h, hback]
    refine Cell.ext ?_ ?_ ?_
    · simp only [Cell.add_x]
      omega
    · simp only [Cell.add_y]
      omega
    · simp only [Cell.add_z]
      omega

/-! ## What the filter leaves out -/

namespace GrammarWalker

variable {F : Type*} (w : GrammarWalker F)

/-- The moves of the grammar `_candidates` takes when nothing led to the block. -/
def offered (blockId want : String) : List Move :=
  let gaps := if w.allowJumps ∧ w.model.isNone then none else some false
  (w.grammar.successors blockId w.minMaps w.allow (some false) gaps).filter (w.keeps want none)

theorem some_bne_offset (back offset : Cell) :
    (some back != some offset) = decide (offset ≠ back) := by
  rw [Bool.eq_iff_iff, bne_iff_ne, decide_eq_true_iff, Ne, Option.some.injEq, eq_comm]

theorem none_bne_offset (offset : Cell) : ((none : Option Cell) != some offset) = true := rfl

theorem keeps_some (want : String) (back : Cell) (m : Move) :
    w.keeps want (some back) m = (decide (m.offset ≠ back) && w.keeps want none m) := by
  unfold keeps
  rw [some_bne_offset, none_bne_offset, Bool.and_true,
    Bool.and_comm _ (decide (m.offset ≠ back)), Bool.and_assoc]

theorem filter_keeps_some (want : String) (back : Cell) (moves : List Move) :
    moves.filter (w.keeps want (some back)) =
      (moves.filter (w.keeps want none)).filter fun m => decide (m.offset ≠ back) := by
  rw [List.filter_filter]
  exact List.filter_congr fun m _ => w.keeps_some want back m

theorem jumpMoves_some (blockId want : String) (back : Cell) :
    w.jumpMoves blockId want (some back) =
      (w.jumpMoves blockId want none).filter fun m => decide (m.offset ≠ back) := by
  unfold jumpMoves
  split
  · rw [List.filter_map, List.filter_filter]
    congr 1
    refine List.filter_congr fun j _ => ?_
    rw [some_bne_offset, none_bne_offset, Bool.and_true, Bool.and_comm]
    rfl
  · rfl

/-- `_candidates` leaves out the moves with the given offset, before the clip-matched ones are
preferred. -/
theorem candidates_some (blockId want : String) (back : Cell) :
    w.candidates blockId want (some back) =
      w.clipFirst ((w.offered blockId want).filter fun m => decide (m.offset ≠ back)) ++
        (w.jumpMoves blockId want none).filter fun m => decide (m.offset ≠ back) := by
  unfold candidates offered
  dsimp only
  rw [filter_keeps_some, jumpMoves_some]

/-- After a move the filter knows the way back: a move undoes it exactly when it has the reverse
offset, and those `_candidates` leaves out are the ones that would land on the anchor just left. -/
theorem uTurn_exact (m : Move) (source : Cell) (rotation : Int) (blockId want : String) :
    let target := m.apply source rotation
    (∀ back : Move, (back.apply target.1 target.2).1 = source ↔ back.offset = reverseOffset m) ∧
      w.candidates blockId want (some (reverseOffset m)) =
        w.clipFirst ((w.offered blockId want).filter fun back =>
          decide ((back.apply target.1 target.2).1 ≠ source)) ++
        (w.jumpMoves blockId want none).filter fun back =>
          decide ((back.apply target.1 target.2).1 ≠ source) := by
  have hiff := fun back : Move => apply_apply_eq_iff m back source rotation
  refine ⟨hiff, ?_⟩
  have hkeep : (fun back : Move => decide (back.offset ≠ reverseOffset m)) = fun back =>
      decide ((back.apply (m.apply source rotation).1 (m.apply source rotation).2).1 ≠ source) := by
    funext back
    rw [decide_eq_decide, Ne, Ne, hiff back]
  rw [candidates_some, hkeep]

end GrammarWalker

end TraxMania.Generation.GrammarWalk
