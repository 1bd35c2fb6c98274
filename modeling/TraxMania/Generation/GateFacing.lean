import TraxMania.Generation.GrammarRoute
import Mathlib.Algebra.Field.Rat

/-
  Which way gates and boosters point on a route of the grammar walker. A block that is placed must
  face the step by which it is entered (`EntersAlong`); nothing is asked of the step by which it is
  left. A recorded move out of a block keeps its direction in the block's own frame
  (`facesTravel_turn`), so a gate faces the next step exactly when the move made from it was
  recorded along the gate's north.
-/

namespace TraxMania.Generation.GrammarWalk

open TraxMania.Grid TraxMania.Catalogue Lib Lib.Draw Lib.Backtrack

/-! ## Directions -/

/-- The block must face the direction of travel. -/
def Directional (catalogue : Dict String BlockDef) (p : Placement) : Prop :=
  isDirectional (waypointOf catalogue p.blockId) p.blockId = true

/-- The second placement faces the step that enters it. -/
def EntersAlong (catalogue : Dict String BlockDef) (p q : Placement) : Prop :=
  Directional catalogue q → FacesTravel q.rotation (q.anchor - p.anchor)

/-- The first placement faces the step that leaves it. -/
def LeavesAlong (catalogue : Dict String BlockDef) (p q : Placement) : Prop :=
  Directional catalogue p → FacesTravel p.rotation (q.anchor - p.anchor)

/-- Every gate and booster but the last placement points the way the route goes on. -/
def GatesFaceOn (catalogue : Dict String BlockDef) (route : List Placement) : Prop :=
  route.IsChain (LeavesAlong catalogue)

/-- A block and a step that are turned together. -/
theorem facesTravel_turn (v : Cell) (d : Int) :
    FacesTravel d (rotateVector v d) ↔ FacesTravel 0 v := by
  unfold FacesTravel
  rw [faceDelta_rotateFace, faceDelta_rotateFace, rotateVector_of_zero (d := 0) (by decide)]
  show _ ↔ ((0 : Int), (1 : Int)) = (v.x.sign, v.z.sign)
  rw [show faceDelta gateForwardLocalFace = ⟨0, 0, 1⟩ from rfl]
  rcases mod_four_cases d with h | h | h | h
  · rw [rotateVector_of_zero h, rotateVector_of_zero h]
  · rw [rotateVector_of_one h, rotateVector_of_one h]
    simp only [Prod.mk.injEq, Int.sign_neg]
    omega
  · rw [rotateVector_of_two h, rotateVector_of_two h]
    simp only [Prod.mk.injEq, Int.sign_neg]
    omega
  · rw [rotateVector_of_three h, rotateVector_of_three h]
    simp only [Prod.mk.injEq, Int.sign_neg]
    omega

/-! ## Recorded moves -/

variable {F : Type*}

/-- The move that `_candidates` makes of a mined jump. -/
def jumpMove (j : Jump) : Move := ⟨j.block, j.offset, j.relRotation, j.mapCount, j.mapCount, false⟩

/-- What was mined for a block: its moves in the grammar and its jumps. -/
def GrammarWalker.recorded (w : GrammarWalker F) (blockId : String) : List Move :=
  ((w.grammar.moves.get? blockId).getD []) ++
    (w.model.elim [] fun model => (model.jumps.get? blockId).getD []).map jumpMove

/-- The move is one of those recorded for the first placement, and it makes the second. -/
def GrammarWalker.Makes (w : GrammarWalker F) (p q : Placement) (m : Move) : Prop :=
  m ∈ w.recorded p.blockId ∧ m.block = q.blockId ∧
    m.apply p.anchor p.rotation = (q.anchor, q.rotation)

/-- The move leads off along the north of the block it starts from. -/
def LeadsNorth (m : Move) : Prop := FacesTravel 0 m.offset

instance : DecidablePred LeadsNorth := fun m => by
  unfold LeadsNorth
  infer_instance

section Moves

variable {w : GrammarWalker F}

/-- Which way a made step goes, in the block's own frame. -/
theorem facesTravel_of_makes {p q : Placement} {m : Move} (h : w.Makes p q m) :
    FacesTravel p.rotation (q.anchor - p.anchor) ↔ LeadsNorth m := by
  have hanchor : p.anchor + rotateVector m.offset p.rotation = q.anchor :=
    (Prod.mk.inj h.2.2).1
  rw [← hanchor, Cell.add_sub_self]
  exact facesTravel_turn m.offset p.rotation

theorem mem_recorded_of_candidates {blockId want : String} {incoming : Option Cell} {m : Move}
    (h : m ∈ w.candidates blockId want incoming) : m ∈ w.recorded blockId := by
  unfold GrammarWalker.candidates at h
  unfold GrammarWalker.recorded
  rcases List.mem_append.mp h with h | h
  · have hsucc := List.mem_of_mem_filter (clipFirst_subset h)
    exact List.mem_append_left _ (List.mem_of_mem_filter hsucc)
  · refine List.mem_append_right _ ?_
    unfold GrammarWalker.jumpMoves at h
    split at h
    · next model _ hmodel =>
      obtain ⟨j, hj, rfl⟩ := List.mem_map.mp h
      have hjump : j ∈ (model.jumps.get? blockId).getD [] :=
        List.mem_of_mem_filter (List.mem_of_mem_filter hj)
      rw [hmodel]
      exact List.mem_map.mpr ⟨j, hjump, rfl⟩
    · cases h

/-- The walker's table of waypoints says of a placed block what the catalogue says. -/
theorem Built.isDirectional {catalogue : Dict String BlockDef} {pool : List String}
    (hw : Built catalogue pool w) {p : Placement} {cs : List Cell}
    (h : w.cells.get? (p.blockId, p.rotation, variantKind p.y) = some cs) :
    w.isDirectional p.blockId = true ↔ Directional catalogue p := by
  obtain ⟨hkey, -⟩ := hw.tables.cells _ (Dict.mem_items_of_get? h)
  obtain ⟨kind, hkind⟩ := Dict.mem_keys.mp hkey
  have hget := Dict.get?_eq_some hkind
  unfold GrammarWalker.isDirectional Directional
  rw [hget, (hw.waypoint hget).2]
  rfl

end Moves

/-! ## The search makes recorded moves only -/

section Search

variable {ρ : Type*} [Zero F] [Add F] [Mul F] [Div F] [LE F] [DecidableLE F] [BEq F] [IntCast F]
  [OfScientific F] {R : Rng ρ F} {w : GrammarWalker F}
  {length checkpointEvery maxExpansions : Int} {catalogue : Dict String BlockDef}
  {pool : List String}

/-- What is known of two placements that follow each other. -/
def StepKnown (catalogue : Dict String BlockDef) (w : GrammarWalker F) (p q : Placement) : Prop :=
  EntersAlong catalogue p q ∧ ∃ m, w.Makes p q m

theorem expand_recorded {n : Node} {k : State} {a a' : Volatile ρ} {ls : List Landing}
    (h : w.expand R length checkpointEvery maxExpansions n k a = .ok (ls, a')) :
    ∀ l ∈ ls, l.move ∈ w.recorded n.prev.blockId := by
  obtain ⟨-, -, cs, -, hlands⟩ := expand_land h
  intro l hl
  obtain ⟨m, hland, hm⟩ := hlands l hl
  obtain ⟨rfl, -⟩ := land_spec hland
  rcases hm with hm | ⟨-, hm⟩
  · exact mem_recorded_of_candidates hm
  · exact mem_recorded_of_candidates hm

theorem stepKnown_of_offered (hw : Built catalogue pool w) {n : Node} {k : State} {l : Landing}
    (h : (w.search R length checkpointEvery maxExpansions).Offered n k l) :
    StepKnown catalogue w n.prev l.placement := by
  have hl := landed_of_offered h
  obtain ⟨cs, hget, -⟩ := hl.cells
  obtain ⟨source, -, hadm⟩ := hl.source
  constructor
  · intro hdir
    exact hadm.2.2.2.1 ((hw.isDirectional (p := l.placement) hget).mpr hdir)
  · obtain ⟨a, ls, a', he, hmem⟩ := h
    exact ⟨l.move, expand_recorded he l hmem, rfl, hl.apply⟩

section Chain

variable {S : Placement → Placement → Prop}

/-- What holds of every offered landing and its predecessor holds along a chain of moves. -/
theorem isChain_of_leads
    (hstep : ∀ {n : Node} {k : State} {l : Landing},
      (w.search R length checkpointEvery maxExpansions).Offered n k l → S n.prev l.placement)
    {n : Node} {k k' : State}
    (h : (w.search R length checkpointEvery maxExpansions).Leads n k k')
    (hprev : k.placements.getLast? = some n.prev) (hchain : k.placements.IsChain S) :
    k'.placements.IsChain S := by
  have happend : ∀ {n : Node} {k : State} {l : Landing},
      (w.search R length checkpointEvery maxExpansions).Offered n k l →
      k.placements.getLast? = some n.prev → k.placements.IsChain S →
      (k.placements ++ [l.placement]).IsChain S := by
    intro n k l hoffered hlast hsteps
    rw [List.isChain_append]
    refine ⟨hsteps, List.isChain_singleton _, fun p hp q hq => ?_⟩
    rw [hlast] at hp
    obtain rfl := Option.some.inj hp
    obtain rfl := Option.some.inj hq
    exact hstep hoffered
  induction h with
  | @close n k k' l hoffered hat =>
    obtain ⟨-, rfl⟩ := tryLanding_close hat
    exact happend hoffered hprev hchain
  | @descend n n₁ k k₁ k' l back hoffered hat _ ih =>
    obtain ⟨-, rfl, rfl, -⟩ := tryLanding_descend hat
    exact ih List.getLast?_concat (happend hoffered hprev hchain)

theorem attempt_isChain
    (hstep : ∀ {n : Node} {k : State} {l : Landing},
      (w.search R length checkpointEvery maxExpansions).Offered n k l → S n.prev l.placement)
    {r : ρ} {route : List Placement}
    (h : w.attempt R length checkpointEvery maxExpansions r = .ok route) : route.IsChain S := by
  unfold GrammarWalker.attempt at h
  split at h
  · cases h
  · dsimp only at h
    unfold GrammarWalker.attemptFrom at h
    split at h
    · cases h
    · split at h
      · next k a hfound =>
        cases h
        exact isChain_of_leads hstep (Search.dfs_found search_undoes hfound) rfl
          (List.isChain_singleton _)
      · cases h
      · cases h

/-- And along a returned route. -/
theorem attempts_isChain
    (hstep : ∀ {n : Node} {k : State} {l : Landing},
      (w.search R length checkpointEvery maxExpansions).Offered n k l → S n.prev l.placement)
    {seeded : String → ρ} {total : Int} {left attempt : Nat} {last : String}
    {route : List Placement}
    (h : w.attempts R seeded length checkpointEvery maxExpansions total left attempt last =
      .ok route) : route.IsChain S := by
  induction left generalizing attempt last with
  | zero => cases h
  | succ left ih =>
    unfold GrammarWalker.attempts at h
    dsimp only at h
    split at h
    · next hattempt =>
      split at h
      · cases h
        exact attempt_isChain hstep hattempt
      · exact ih h
    · exact ih h
    · cases h

end Chain

/-- Every step of a returned route was recorded, and faced by the block it enters. -/
theorem attempts_steps (hw : Built catalogue pool w) {seeded : String → ρ} {total : Int}
    {left attempt : Nat} {last : String} {route : List Placement}
    (h : w.attempts R seeded length checkpointEvery maxExpansions total left attempt last =
      .ok route) : route.IsChain (StepKnown catalogue w) :=
  attempts_isChain (fun hoffered => stepKnown_of_offered hw hoffered) h

/-- The step from `p` to `q` is made by moves that lead off along the north of `p`. -/
def LeavesNorth (catalogue : Dict String BlockDef) (w : GrammarWalker F) (p q : Placement) : Prop :=
  Directional catalogue p → ∀ m, w.Makes p q m → LeadsNorth m

/-- All moves recorded for gates and boosters lead off along their north. -/
def GatesRecordedNorth (catalogue : Dict String BlockDef) (w : GrammarWalker F) : Prop :=
  ∀ b, TraxMania.Generation.isDirectional (waypointOf catalogue b) b = true →
    ∀ m ∈ w.recorded b, LeadsNorth m

omit [Zero F] [Add F] [Mul F] [Div F] [LE F] [DecidableLE F] [BEq F] [IntCast F] [OfScientific F] in
theorem leavesAlong_iff {p q : Placement} (h : StepKnown catalogue w p q) :
    LeavesAlong catalogue p q ↔ LeavesNorth catalogue w p q := by
  obtain ⟨-, made, hmade⟩ := h
  constructor
  · intro hleaves hdir m hm
    exact (facesTravel_of_makes hm).mp (hleaves hdir)
  · intro hnorth hdir
    exact (facesTravel_of_makes hmade).mpr (hnorth hdir made hmade)

end Search

/-! ## A checkpoint between start and finish -/

/-- A start, a checkpoint and a finish. -/
def gateCatalogue : Dict String BlockDef :=
  ⟨[("S", cube "S" "Start"), ("C", cube "C" "Checkpoint"), ("F", cube "F" "Finish")], by decide⟩

/-- The checkpoint lies ahead of the start; where the finish lies from it is `off`. -/
def gateGrammar (off : Cell) : PlacementGrammar :=
  ⟨⟨[("S", [⟨"C", ⟨0, 0, 1⟩, 0, 30, 30, true⟩]), ("C", [⟨"F", off, 0, 30, 30, true⟩])],
    (by decide : ["S", "C"].Nodup)⟩⟩

def gateOptions : Options Rat :=
  ⟨7, 20, false, none, Dict.empty, false, [], none, 0.04, none, 1.0⟩

def gateTables : Tables :=
  gateCatalogue.items.foldl (fun t kv => Tables.addBlock kv.1 kv.2 t) Tables.empty

def gateWalker (off : Cell) : GrammarWalker Rat :=
  ⟨7, gateGrammar off, 20, false, 200, Dict.empty, {"S", "C", "F"}, [], none, 0.04, none, 1.0,
    gateTables.cells, gateTables.waypoint, ["S"], ["F"]⟩

/-- The route of the two moves. -/
def gateRoute (off : Cell) : List Placement :=
  [⟨"S", 24, 9, 24, 0, none⟩, ⟨"C", 24, 9, 25, 0, none⟩,
    ⟨"F", 24 + off.x, 9 + off.y, 25 + off.z, 0, none⟩]

end TraxMania.Generation.GrammarWalk
