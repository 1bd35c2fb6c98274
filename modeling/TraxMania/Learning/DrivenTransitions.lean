import TraxMania.Learning.ConstructionExport
import Mathlib.Data.Rat.Defs

/-
  `learning/driven_transitions.py`, `mine`: which block follows which on the driven paths, with the
  relative rotation and the way in the frame of the first, and how long the paths stay on one type.

  `tools/transition_support.py`: which joints of a token sequence are in the table of the driven
  transitions, at three levels of strictness.
-/

namespace TraxMania.Learning

open TraxMania.Grid TraxMania.Catalogue Lib Lib.PyText

/-! ## Keys -/

/-- One quarter turn of a way in the plane. -/
def quarterTurn (v : Int × Int) : Int × Int := (-v.2, v.1)

/-- `_rotate_local(dx, dz, from_rot)`, which the scorer repeats. -/
def rotateLocal (dx dz fromRot : Int) : Int × Int :=
  quarterTurn^[((4 - fromRot % 4) % 4).toNat] (dx, dz)

/-- The quarter turns of the miner are those of the catalogue. -/
theorem iterate_quarterTurn (v : Cell) (n : Nat) :
    quarterTurn^[n] (v.x, v.z) = ((rotateVector v n).x, (rotateVector v n).z) := by
  induction n with
  | zero => rw [Int.natCast_zero, rotateVector_of_zero (by decide), Function.iterate_zero_apply]
  | succ n ih =>
    rw [Function.iterate_succ_apply', ih, Int.natCast_succ, rotateVector_succ,
      rotateVector_of_one (by decide) (rotateVector v n)]
    rfl

/-- The way in the frame of a turned block is the way turned back. -/
theorem rotateLocal_eq (v : Cell) (r : Int) :
    rotateLocal v.x v.z r = ((rotateVector v (4 - r)).x, (rotateVector v (4 - r)).z) := by
  have hturns : (((4 - r % 4) % 4).toNat : Int) % 4 = (4 - r) % 4 := by omega
  unfold rotateLocal
  rw [iterate_quarterTurn, ← rotateVector_mod, hturns, rotateVector_mod]

/-- The quarter turns of cells in a box, of ways, of faces and of the miner fit together. -/
structure TurnsAgree (size : Cell) : Prop where
  box : ∀ d, Set.BijOn (fun o => rotateOffset o d size) {o | InBox size o}
    {o | InBox (rotatedSize size d) o}
  offset_add : ∀ o d₁ d₂, InBox size o →
    rotateOffset (rotateOffset o d₁ size) d₂ (rotatedSize size d₁) = rotateOffset o (d₁ + d₂) size
  vector_zero : ∀ v, rotateVector v 0 = v
  vector_add : ∀ v d₁ d₂, rotateVector (rotateVector v d₁) d₂ = rotateVector v (d₁ + d₂)
  vector_mod : ∀ v d, rotateVector v (d % 4) = rotateVector v d
  face_zero : ∀ f, rotateFace f 0 = f
  face_add : ∀ f d₁ d₂, rotateFace (rotateFace f d₁) d₂ = rotateFace f (d₁ + d₂)
  face_mod : ∀ f d, rotateFace f (d % 4) = rotateFace f d
  face_delta : ∀ f d, faceDelta (rotateFace f d) = rotateVector (faceDelta f) d
  shared_face : ∀ o o' f d, InBox size o → InBox size o' → o' = o + faceDelta f →
    rotateOffset o' d size = rotateOffset o d size + faceDelta (rotateFace f d)
  local_frame : ∀ (v : Cell) r, rotateLocal v.x v.z r =
    ((rotateVector v (4 - r)).x, (rotateVector v (4 - r)).z) ∧ (rotateVector v (4 - r)).y = v.y

theorem turnsAgree (size : Cell) : TurnsAgree size where
  box := rotateOffset_bijOn size
  offset_add := fun o d₁ d₂ _ => rotateOffset_add o size d₁ d₂
  vector_zero := rotateVector_of_zero (by decide)
  vector_add := fun v d₁ d₂ => (rotateVector_add v d₁ d₂).symm
  vector_mod := rotateVector_mod
  face_zero := rotateFace_zero
  face_add := fun f d₁ d₂ => (rotateFace_add f d₁ d₂).symm
  face_mod := rotateFace_mod
  face_delta := faceDelta_rotateFace
  shared_face := fun _ _ _ _ _ _ h => rotateOffset_faceDelta_iff.mpr h
  local_frame := fun v r => ⟨rotateLocal_eq v r, rotateVector_y v (4 - r)⟩

/-- `link`. -/
inductive Link where
  | contact
  | jump
  | gap
deriving DecidableEq

/-- A transition, without how it was made: types, relative rotation, and the way. -/
structure JointKey where
  fromType : Text
  toType : Text
  relRot : Option Int
  d : Int × Int × Int
deriving DecidableEq

/-- `MinedTransition`. -/
structure MinedTransition where
  joint : JointKey
  link : Link
deriving DecidableEq

/-- `prev_block`. -/
structure DrivenEnd where
  blockType : Text
  cell : Option Cell
  rotation : Option Int
  isFree : Bool
deriving DecidableEq

/-- The joint of two blocks. A free end has no frame: the joint keeps its types only. -/
def jointOf (f t : DrivenEnd) : JointKey :=
  match f.isFree, t.isFree, t.cell, f.cell with
  | false, false, some c, some fc =>
    let way := rotateLocal (c.x - fc.x) (c.z - fc.z) (f.rotation.getD 0)
    ⟨f.blockType, t.blockType, some ((t.rotation.getD 0 - f.rotation.getD 0) % 4),
      way.1, c.y - fc.y, way.2⟩
  | _, _, _, _ => ⟨f.blockType, t.blockType, none, 0, 0, 0⟩

/-! ## One replay -/

/-- `Counter`. -/
abbrev Counter (κ : Type) [DecidableEq κ] := Dict κ Nat

/-- `c[key] += 1`. -/
def Counter.bump {κ : Type} [DecidableEq κ] (c : Counter κ) (key : κ) : Counter κ :=
  c.upsert key fun old => old.getD 0 + 1

/-- The variables of the loops. -/
structure MineState where
  prevBlock : Option DrivenEnd
  pendingLink : Link
  /-- `run_type` and `run_len`. -/
  run : Option (Text × Nat)
  /-- For each transition, how often each replay makes it. -/
  counts : Dict MinedTransition (Counter Int)
  runLengths : Dict Text (Counter Nat)

/-- `run_lengths[run_type][run_len] += 1`. -/
def closeRun (run : Option (Text × Nat)) (runLengths : Dict Text (Counter Nat)) :
    Dict Text (Counter Nat) :=
  match run with
  | none => runLengths
  | some r => runLengths.upsert r.1 fun old => Counter.bump (old.getD Dict.empty) r.2

/-- The bookkeeping of runs: a change of type closes one. -/
def extendRun (btype : Text) (s : MineState) : MineState :=
  match s.run with
  | some r =>
    if r.1 = btype then { s with run := some (r.1, r.2 + 1) }
    else { s with run := some (btype, 1), runLengths := closeRun s.run s.runLengths }
  | none => { s with run := some (btype, 1) }

/-- `counts[key][replay_id] += 1`. -/
def countTransition (replayId : Int) (key : MinedTransition)
    (counts : Dict MinedTransition (Counter Int)) : Dict MinedTransition (Counter Int) :=
  counts.upsert key fun old => Counter.bump (old.getD Dict.empty) replayId

/-- A visit to a block. A joint of one type in contact is no transition. -/
def mineBlock (replayId : Int) (t : DrivenEnd) (s : MineState) : MineState :=
  let s := extendRun t.blockType s
  let counts :=
    match s.prevBlock with
    | none => s.counts
    | some f =>
      if f.blockType ≠ t.blockType ∨ s.pendingLink ≠ .contact then
        countTransition replayId ⟨jointOf f t, s.pendingLink⟩ s.counts
      else s.counts
  { s with prevBlock := some t, pendingLink := .contact, counts := counts }

section

variable {σ : Type} (placements : Dict Int (ExportPlacement σ))

/-- The placement of a visit, through the join. -/
def joinedEnd (v : BlockVisit) : Option DrivenEnd :=
  (v.placementId.bind placements.get?).map fun p =>
    ⟨p.blockType, p.position.cell, p.rotation, p.isFree⟩

/-- One turn of the loop over the visits. -/
def mineVisit (replayId : Int) (s : MineState) (v : BlockVisit) : MineState :=
  match v.state with
  | .airborne => { s with pendingLink := .jump }
  | .offSurface => { s with pendingLink := .gap }
  | .onBlock =>
    match joinedEnd placements v with
    | none => s
    | some t => mineBlock replayId t s

/-- The visits of one replay. -/
def mineReplay (s : MineState) (replay : Int × List BlockVisit) : MineState :=
  let s := replay.2.foldl (mineVisit placements replay.1)
    { s with prevBlock := none, pendingLink := .contact, run := none }
  { s with runLengths := closeRun s.run s.runLengths }

/-- `by_replay`, from the rows `(replay_id, visit)`. -/
def byReplay (rows : List (Int × BlockVisit)) : Dict Int (List BlockVisit) :=
  rows.foldl (fun acc r => acc.upsert r.1 fun old => old.getD [] ++ [r.2]) Dict.empty

/-- The two dictionaries after all the replays. -/
def mineCounts (rows : List (Int × BlockVisit)) : MineState :=
  (byReplay rows).items.foldl (mineReplay placements)
    ⟨none, .contact, none, Dict.empty, Dict.empty⟩

/-- `mine(conn)`: each transition, how often it was made and in how many replays; and the lengths
    of the runs. -/
def mine (rows : List (Int × BlockVisit)) :
    List (MinedTransition × Nat × Nat) × Dict Text (Counter Nat) :=
  let s := mineCounts placements rows
  (s.counts.items.map fun e => (e.1, (e.2.items.map Prod.snd).sum, e.2.items.length),
    s.runLengths)

end

/-! ## What is stored -/

/-- A row of `driven_transitions`. -/
structure TransitionRow where
  extractorVersion : Text
  transition : MinedTransition
  nTransitions : Nat
  nMaps : Nat
  createdByVersion : Text
deriving DecidableEq

/-- `persist(conn, mined, version=…)`: the table after it, and how many rows it wrote. -/
def persist (version : Text) (mined : List (MinedTransition × Nat × Nat))
    (table : List TransitionRow) : List TransitionRow × Nat :=
  (table.filter (fun r => decide (r.extractorVersion ≠ version)) ++
    mined.map fun t => ⟨version, t.1, t.2.1, t.2.2, version⟩, mined.length)

/-- The `transitions` of `export_artifact`. -/
def exportTransitions (mined : List (MinedTransition × Nat × Nat)) :
    List (MinedTransition × Nat × Nat) :=
  Lib.SortBy.sortBy (fun t => -(t.2.1 : Int)) mined

/-! ## The table -/

/-- `MIN_OTHER_MAPS`. -/
def minOtherMaps : Nat := 2

/-- The three sets. -/
structure SupportTables where
  pair : List (Text × Text)
  rot : List (Text × Text × Option Int)
  exact : List JointKey

/-- `load_tables(path)`, for the transitions of the artifact and a threshold like `minOtherMaps`. -/
def loadTables (minMaps : Nat) (mined : List (MinedTransition × Nat × Nat)) : SupportTables :=
  let joints := (mined.filter fun t => minMaps ≤ t.2.2).map fun t => t.1.joint
  ⟨joints.map fun j => (j.fromType, j.toType),
    joints.map fun j => (j.fromType, j.toType, j.relRot), joints⟩

/-! ## The score -/

/-- The unpacking of a way that is no triple. -/
inductive ScoreError where
  | valueError
deriving DecidableEq

/-- The joint of two consecutive placements; two blocks of one type make none. -/
def placedJoint : Token → Token → Except ScoreError (Option JointKey)
  | .place fa _ ra _, .place fb d rb _ =>
    if fa = fb then .ok none
    else
      match d with
      | [dx, dy, dz] =>
        let way := rotateLocal dx dz (ra.getD 0)
        .ok (some ⟨fa, fb, some ((rb.getD 0 - ra.getD 0) % 4), way.1, dy, way.2⟩)
      | _ => .error .valueError
  | _, _ => .ok none

/-- The shares of the joints that are in the table, and how many joints there are. -/
structure Support where
  pair : ℚ
  rot : ℚ
  exact : ℚ
  joints : Nat
deriving DecidableEq

/-- The joints that `score` counts. -/
def scoredJoints (tokens : List Token) : Except ScoreError (List JointKey) :=
  let places := tokens.filter Token.isPlace
  ((places.zip places.tail).mapM fun ab => placedJoint ab.1 ab.2).map List.reduceOption

/-- `hits[level] / n`. -/
def share (q : JointKey → Bool) (joints : List JointKey) : ℚ :=
  (joints.countP q : ℚ) / (joints.length : ℚ)

/-- `score(tokens, pair, rot, exact)`. -/
def score (tokens : List Token) (tables : SupportTables) : Except ScoreError (Option Support) :=
  (scoredJoints tokens).map fun joints =>
    if joints.isEmpty then none
    else some ⟨share (fun j => tables.pair.contains (j.fromType, j.toType)) joints,
      share (fun j => tables.rot.contains (j.fromType, j.toType, j.relRot)) joints,
      share (fun j => tables.exact.contains j) joints, joints.length⟩

end TraxMania.Learning
