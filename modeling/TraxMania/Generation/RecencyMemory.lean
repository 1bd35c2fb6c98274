import TraxMania.Generation.GrammarRoute
import TraxMania.Lib.SearchLog
import Mathlib.Algebra.Field.Rat

/-
  What backtracking restores. At every entry of `dfs` the occupied cells, the levels over each
  column and the surfaces reached are those of the placements that stand (`entry_stands`). The
  recency memory is not: a full deque drops its oldest block for the new one, and the pop that takes
  the new block back does not return it. It is whole again whenever no two blocks in a row were
  taken back from beyond the window (`entries_restored_iff`).
-/

namespace TraxMania.Generation.GrammarWalk

open TraxMania.Grid TraxMania.Catalogue Lib Lib.Draw Lib.Backtrack

/-! ## What the placements determine -/

/-- The block ids of the last `RECENCY_WINDOW` placements after the start, or of all of them. -/
def recentOf (placements : List Placement) : List String :=
  (placements.tail.drop
    (placements.tail.length - min recencyWindow (placements.length - 1))).map Placement.blockId

namespace GrammarWalker

variable {F : Type*} (w : GrammarWalker F)

/-- The cells a placement covers, by the walker's table. -/
def cellsAt (p : Placement) : List Cell :=
  shiftAll p.anchor ((w.cells.get? (p.blockId, p.rotation, variantKind p.y)).getD [])

def occupiedOf (placements : List Placement) : Finset Cell :=
  (placements.flatMap w.cellsAt).toFinset

/-- The start counts with every cell of a column, a later block once for each column it covers. -/
def columnLevels : List Placement → Int × Int → Int
  | [], _ => 0
  | start :: rest, col =>
    (((w.cellsAt start).toFinset.filter fun c => (c.x, c.z) = col).card : Int) +
      (rest.filter fun p => decide (col ∈ columnsOf (w.cellsAt p))).length

def visitedOf (placements : List Placement) : Finset String :=
  (w.require.filter fun p => placements.any fun q => startsWith q.blockId p).toFinset

def stateOf (placements : List Placement) : State :=
  ⟨placements, w.occupiedOf placements, w.columnLevels placements, w.visitedOf placements⟩

section Numbers

variable [Zero F] [Add F] [Mul F] [Div F] [LE F] [DecidableLE F] [BEq F] [IntCast F]
  [OfScientific F]

/-- The weight of a landing as the placements alone determine it. -/
def weightAfter (placements : List Placement) (l : Landing) : F :=
  match placements.getLast? with
  | none => 0
  | some prev =>
    let before := placements.dropLast.getLast?.map Placement.blockId
    w.weight ⟨prev, none, placements.length, before⟩ (w.stateOf placements)
      (recentOf placements) l

variable {ρ : Type*}

/-- The entries of `dfs` in `attemptFrom`. -/
def entriesFrom (R : Rng ρ F) (length checkpointEvery maxExpansions : Int) (fuel : Nat)
    (start : Placement) (r : ρ) : List (Entry Node State (Volatile ρ)) :=
  match w.cells.get? (start.blockId, start.rotation, variantKind start.y) with
  | none => []
  | some cells => (w.search R length checkpointEvery maxExpansions).entries (.routeDeadEnd "") fuel
      ⟨start, none, 1, none⟩ (w.startState start cells) ⟨0, [], r⟩

/-- The entries of `dfs` in `attempt`. -/
def dfsEntries (R : Rng ρ F) (length checkpointEvery maxExpansions : Int) (r : ρ) :
    List (Entry Node State (Volatile ρ)) :=
  match choice R w.starts r with
  | (none, _) => []
  | (some startId, r) =>
    let (startRot, r) := R.below 4 r
    w.entriesFrom R length checkpointEvery maxExpansions (maxExpansions.toNat + 1)
      (Placement.ofAnchor startId origin startRot) r

end Numbers

/-- The search state with which `dfs` is entered is that of the placements. -/
structure Restored {ρ : Type*} (e : Entry Node State (Volatile ρ)) : Prop where
  occupied : e.state.occupied = w.occupiedOf e.state.placements
  columns : e.state.columns = w.columnLevels e.state.placements
  visited : e.state.visited = w.visitedOf e.state.placements
  recent : e.volatile.recent = recentOf e.state.placements

end GrammarWalker

/-- How many blocks stand after the start. -/
def State.depth (k : State) : Nat := k.placements.tail.length

/-- When more than one block is taken back before the next is placed, the last one was at most the
fourteenth after the start, or every one of them is taken back. -/
def WithinWindow {ρ : Type*} (e e' : Entry Node State (Volatile ρ)) : Prop :=
  e'.state.depth < e.state.depth → e.state.depth ≤ recencyWindow ∨ e'.state.depth = 1

instance {ρ : Type*} (e e' : Entry Node State (Volatile ρ)) : Decidable (WithinWindow e e') :=
  inferInstanceAs (Decidable (_ → _))

/-! ## One more placement -/

def State.ids (k : State) : List String := k.placements.tail.map Placement.blockId

theorem State.length_ids (k : State) : k.ids.length = k.depth := List.length_map _

theorem State.depth_of_ids {k k₁ : State} {block : String} (h : k₁.ids = k.ids ++ [block]) :
    k₁.depth = k.depth + 1 := by
  rw [← State.length_ids, h, List.length_append, State.length_ids]
  rfl

/-- The memory holds the last blocks: it is whole when it holds as many as the window allows. -/
theorem eq_recentOf_iff {k : State} {recent : List String} (h : recent <:+ k.ids) :
    recent = recentOf k.placements ↔ recent.length = min recencyWindow k.depth := by
  have hlen : k.placements.length - 1 = k.depth := List.length_tail.symm
  have hof : recentOf k.placements = k.ids.drop (k.ids.length - min recencyWindow k.depth) := by
    unfold recentOf State.ids
    rw [hlen, List.length_map, List.map_drop]
  have hdrop := List.suffix_iff_eq_drop.mp h
  have hids := k.length_ids
  constructor
  · intro heq
    rw [heq, hof, List.length_drop]
    omega
  · intro heq
    rw [hof, ← heq]
    exact hdrop

theorem remember_suffix {recent ids : List String} (h : recent <:+ ids) (block : String) :
    remember recent block <:+ ids ++ [block] := by
  obtain ⟨front, rfl⟩ := h
  unfold remember
  refine (List.drop_suffix _ _).trans ⟨front, ?_⟩
  rw [List.append_assoc]

theorem length_remember (recent : List String) (block : String) :
    (remember recent block).length = min recencyWindow (recent.length + 1) := by
  unfold remember
  rw [List.length_drop, List.length_append, List.length_singleton]
  omega

theorem dropLast_suffix {recent ids : List String} {block : String}
    (h : recent <:+ ids ++ [block]) : recent.dropLast <:+ ids := by
  rcases List.eq_nil_or_concat recent with rfl | ⟨front, last, rfl⟩
  · exact List.nil_suffix
  · rw [List.concat_eq_append, List.dropLast_concat]
    obtain ⟨before, heq⟩ := h
    rw [List.concat_eq_append, ← List.append_assoc] at heq
    exact ⟨before, (List.append_inj' heq rfl).1⟩

namespace GrammarWalker

variable {F : Type*} {w : GrammarWalker F}

theorem occupiedOf_append (placements : List Placement) (p : Placement) :
    w.occupiedOf (placements ++ [p]) = w.occupiedOf placements ∪ (w.cellsAt p).toFinset := by
  unfold occupiedOf
  rw [List.flatMap_append, List.toFinset_append, List.flatMap_singleton]

theorem columnLevels_append {placements : List Placement} (h : placements ≠ []) (p : Placement) :
    w.columnLevels (placements ++ [p]) =
      addColumns (w.columnLevels placements) (columnsOf (w.cellsAt p)) 1 := by
  obtain ⟨start, rest, rfl⟩ := List.exists_cons_of_ne_nil h
  funext col
  unfold addColumns
  rw [List.cons_append]
  simp only [columnLevels]
  rw [List.filter_append, List.length_append, List.filter_singleton]
  by_cases hcol : col ∈ columnsOf (w.cellsAt p)
  · rw [if_pos hcol, decide_eq_true hcol]
    simp only [cond_true, List.length_singleton]
    push_cast
    omega
  · rw [if_neg hcol, decide_eq_false hcol]
    simp only [cond_false, List.length_nil]
    omega

theorem visitedOf_append (placements : List Placement) (p : Placement) :
    w.visitedOf (placements ++ [p]) =
      w.visitedOf placements ∪ w.reached (w.visitedOf placements) p.blockId := by
  have hmem : ∀ ps surface, surface ∈ w.visitedOf ps ↔
      surface ∈ w.require ∧ ∃ q ∈ ps, startsWith q.blockId surface = true := by
    intro ps surface
    unfold visitedOf
    rw [List.mem_toFinset, List.mem_filter, List.any_eq_true]
  ext surface
  unfold reached
  rw [Finset.mem_union, List.mem_toFinset, List.mem_filter, hmem, Bool.and_eq_true,
    decide_eq_true_eq, hmem]
  simp only [List.mem_append, List.mem_singleton, or_and_right, exists_or, exists_eq_left]
  by_cases hseen : ∃ q ∈ placements, startsWith q.blockId surface = true
  · simp only [hseen, true_or, and_true]
    tauto
  · simp only [hseen, false_or, and_false, not_false_eq_true, true_and]

theorem stateOf_start {b : String} {rotation : Int} {cells : List Cell}
    (hcells : w.cells.get? (b, rotation, variantKind origin.y) = some cells) :
    w.startState (Placement.ofAnchor b origin rotation) cells =
      w.stateOf [Placement.ofAnchor b origin rotation] := by
  have hat : w.cellsAt (Placement.ofAnchor b origin rotation) = shiftAll origin cells := by
    show shiftAll origin ((w.cells.get? (b, rotation, variantKind origin.y)).getD []) = _
    rw [hcells]
    rfl
  refine State.ext rfl ?_ ?_ ?_
  · show _ = (List.flatMap w.cellsAt [Placement.ofAnchor b origin rotation]).toFinset
    rw [List.flatMap_singleton, hat]
    rfl
  · funext col
    show _ = (((w.cellsAt (Placement.ofAnchor b origin rotation)).toFinset.filter
      fun c => (c.x, c.z) = col).card : Int) + (0 : Nat)
    rw [hat]
    exact (Int.add_zero _).symm
  · show (w.require.filter _).toFinset = (w.require.filter _).toFinset
    congr 1
    refine List.filter_congr fun surface _ => ?_
    simp

/-! ## From one entry to the next -/

/-- At the node `n` the state `k` is that of its placements, of which the last are the node's. -/
structure Stands (w : GrammarWalker F) (n : Node) (k : State) : Prop where
  state : k = w.stateOf k.placements
  prev : k.placements.getLast? = some n.prev
  before : n.before = k.placements.dropLast.getLast?.map Placement.blockId
  steps : n.steps = k.placements.length

theorem Stands.ne_nil {n : Node} {k : State} (h : w.Stands n k) : k.placements ≠ [] := by
  intro hnil
  have hprev := h.prev
  rw [hnil] at hprev
  cases hprev

section Step

variable {length checkpointEvery : Int} {n n₁ : Node} {k k₁ : State} {l : Landing}
  {back : State → State}

theorem cellsAt_landed (hl : Landed w length checkpointEvery n k l) :
    w.cellsAt l.placement = l.footprint := by
  obtain ⟨cells, hget, hfoot⟩ := hl.cells
  show shiftAll l.anchor
    ((w.cells.get? (l.move.block, l.rotation, variantKind l.anchor.y)).getD []) = _
  rw [hget, hfoot]
  rfl

/-- The node and the state a landing descends to. -/
theorem Stands.descend (hk : w.Stands n k) (hl : Landed w length checkpointEvery n k l)
    (h : w.tryLanding length checkpointEvery n k l = .descend k₁ n₁ back) :
    w.Stands n₁ k₁ ∧ k₁.ids = k.ids ++ [l.move.block] := by
  obtain ⟨-, rfl, rfl, -⟩ := tryLanding_descend h
  have hat := cellsAt_landed hl
  obtain ⟨start, rest, hcons⟩ := List.exists_cons_of_ne_nil hk.ne_nil
  refine ⟨{
    state := ?_
    prev := List.getLast?_concat
    before := ?_
    steps := ?_ }, ?_⟩
  · refine State.ext rfl ?_ ?_ ?_
    · show k.occupied ∪ _ = w.occupiedOf (k.placements ++ [l.placement])
      rw [occupiedOf_append, hat, show k.occupied = w.occupiedOf k.placements from
        congrArg State.occupied hk.state]
    · show addColumns k.columns l.cols 1 = w.columnLevels (k.placements ++ [l.placement])
      rw [columnLevels_append hk.ne_nil, hat, ← hl.cols,
        show k.columns = w.columnLevels k.placements from congrArg State.columns hk.state]
    · show k.visited ∪ _ = w.visitedOf (k.placements ++ [l.placement])
      rw [visitedOf_append, show k.visited = w.visitedOf k.placements from
        congrArg State.visited hk.state]
      rfl
  · show some n.prev.blockId = _
    rw [List.dropLast_concat, hk.prev]
    rfl
  · show n.steps + 1 = _
    rw [hk.steps, List.length_append, List.length_singleton]
    push_cast
    rfl
  · unfold State.ids
    dsimp only
    rw [hcons, List.cons_append, List.tail_cons, List.tail_cons, List.map_append]
    rfl

end Step

section Search

variable {ρ : Type*}

/-- An entry at which all but the length of the memory is what the placements say. -/
def Sound (w : GrammarWalker F) (e : Entry Node State (Volatile ρ)) : Prop :=
  w.Stands e.node e.state ∧ e.volatile.recent <:+ e.state.ids

/-- Between `e` and the next entry blocks are taken back, and as many ids are popped. -/
structure Between (w : GrammarWalker F) (e : Entry Node State (Volatile ρ)) (n : Node) (k : State)
    (a : Volatile ρ) : Prop where
  stands : w.Stands n k
  recent : a.recent <:+ k.ids
  depth : k.depth ≤ e.state.depth
  popped : a.recent.length = e.volatile.recent.length - (e.state.depth - k.depth)

/-- What the next entry finds in the memory. -/
def Next (e e' : Entry Node State (Volatile ρ)) : Prop :=
  0 < e'.state.depth ∧ e'.state.depth ≤ e.state.depth + 1 ∧
    e'.volatile.recent.length = min recencyWindow
      (e.volatile.recent.length - (e.state.depth + 1 - e'.state.depth) + 1)

theorem sound_start {b : String} {rotation : Int} {cells : List Cell}
    (hcells : w.cells.get? (b, rotation, variantKind origin.y) = some cells) (r : ρ) :
    w.Sound ⟨⟨Placement.ofAnchor b origin rotation, none, 1, none⟩,
      w.startState (Placement.ofAnchor b origin rotation) cells, ⟨0, [], r⟩⟩ where
  left := {
    state := stateOf_start hcells
    prev := rfl
    before := rfl
    steps := rfl }
  right := List.nil_suffix

/-- A whole memory stays whole exactly within the window. -/
theorem next_whole_iff {e e' : Entry Node State (Volatile ρ)} (hn : Next e e')
    (he : e.volatile.recent.length = min recencyWindow e.state.depth) :
    e'.volatile.recent.length = min recencyWindow e'.state.depth ↔ WithinWindow e e' := by
  obtain ⟨hpos, hle, hlen⟩ := hn
  rw [hlen, he]
  unfold WithinWindow recencyWindow
  omega

variable [Zero F] [Add F] [Mul F] [Div F] [LE F] [DecidableLE F] [BEq F] [IntCast F]
  [OfScientific F] {R : Rng ρ F} {length checkpointEvery maxExpansions : Int}

theorem expand_recent {n : Node} {k : State} {a a' : Volatile ρ} {ls : List Landing}
    (h : w.expand R length checkpointEvery maxExpansions n k a = .ok (ls, a')) :
    a'.recent = a.recent := by
  unfold expand at h
  dsimp only at h
  split at h
  · cases h
  · split at h
    · cases h
    · rw [← (Prod.mk.inj (Except.ok.inj h)).2]

theorem search_follows :
    (w.search R length checkpointEvery maxExpansions).Follows w.Sound w.Between Next where
  undoes := search_undoes
  expand := by
    intro n k a ls a' hs he
    have hrecent := expand_recent he
    exact {
      stands := hs.1
      recent := by
        rw [hrecent]
        exact hs.2
      depth := le_refl _
      popped := by
        rw [hrecent, Nat.sub_self, Nat.sub_zero] }
  descend := by
    intro e n k a l k₁ n₁ back hb hoffered hat
    obtain ⟨hstands, hids⟩ := hb.stands.descend (landed_of_offered hoffered) hat
    have hdepth := State.depth_of_ids hids
    have hpopped := hb.popped
    have hle := hb.depth
    refine ⟨⟨hstands, ?_⟩, ?_, ?_, ?_⟩
    · show remember a.recent l.move.block <:+ k₁.ids
      rw [hids]
      exact remember_suffix hb.recent l.move.block
    · show 0 < k₁.depth
      omega
    · show k₁.depth ≤ e.state.depth + 1
      omega
    · show (remember a.recent l.move.block).length = _
      rw [length_remember, hpopped]
      show _ = min recencyWindow (_ - (e.state.depth + 1 - k₁.depth) + 1)
      rw [hdepth, Nat.add_sub_add_right]
  back := by
    intro e e' n k a a' l k₁ n₁ back hb hoffered hat hb'
    obtain ⟨-, hids⟩ := hb.stands.descend (landed_of_offered hoffered) hat
    have hdepth := State.depth_of_ids hids
    have hpopped := hb'.popped
    have hle := hb'.depth
    have hrecent := hb'.recent
    rw [hids] at hrecent
    exact {
      stands := hb.stands
      recent := dropLast_suffix hrecent
      depth := by omega
      popped := by
        show a'.recent.dropLast.length = _
        rw [List.length_dropLast, hpopped]
        omega }

/-! ## The entries of a run -/

/-- The run of an attempt, from a start with an empty memory. -/
theorem dfsEntries_run (w : GrammarWalker F) (R : Rng ρ F)
    (length checkpointEvery maxExpansions : Int) (r : ρ) :
    ∃ start : Entry Node State (Volatile ρ), start.state.depth = 0 ∧
      start.volatile.recent = [] ∧ Search.IsRun w.Sound Next start
        (w.dfsEntries R length checkpointEvery maxExpansions r) := by
  have hnone : ∃ start : Entry Node State (Volatile ρ), start.state.depth = 0 ∧
      start.volatile.recent = [] ∧ Search.IsRun w.Sound Next start [] :=
    ⟨⟨⟨Placement.ofAnchor "" origin 0, none, 1, none⟩, w.stateOf [], ⟨0, [], r⟩⟩, rfl, rfl,
      Search.isRun_nil⟩
  unfold dfsEntries
  split
  · exact hnone
  · next startId r' hchoice =>
    dsimp only
    unfold entriesFrom
    split
    · exact hnone
    · next cells hcells => exact ⟨_, rfl, rfl, Search.entries_run search_follows _
        (sound_start hcells _)⟩

omit [LE F] [DecidableLE F] in
theorem weight_of_whole {n : Node} {k : State} (hk : w.Stands n k) {recent : List String}
    (hrecent : recent = recentOf k.placements) (l : Landing) :
    w.weight n k recent l = w.weightAfter k.placements l := by
  unfold weightAfter
  rw [hk.prev, hrecent]
  dsimp only
  rw [← hk.before, ← hk.state]
  rfl

omit [LE F] [DecidableLE F] in
theorem restored_iff {e : Entry Node State (Volatile ρ)} (hs : w.Sound e) :
    (w.Restored e ∧ ∀ l, w.weight e.node e.state e.volatile.recent l =
        w.weightAfter e.state.placements l) ↔
      e.volatile.recent.length = min recencyWindow e.state.depth := by
  rw [← eq_recentOf_iff hs.2]
  constructor
  · intro h
    exact h.1.recent
  · intro hrecent
    refine ⟨{
      occupied := congrArg State.occupied hs.1.state
      columns := congrArg State.columns hs.1.state
      visited := congrArg State.visited hs.1.state
      recent := hrecent }, weight_of_whole hs.1 hrecent⟩

/-- Backtracking restores all of the search state, and with it the weights, exactly when every step
of the run stays within the window. -/
theorem entries_restored_iff (w : GrammarWalker F) (R : Rng ρ F)
    (length checkpointEvery maxExpansions : Int) (r : ρ) :
    (∀ e ∈ w.dfsEntries R length checkpointEvery maxExpansions r, w.Restored e ∧
        ∀ l, w.weight e.node e.state e.volatile.recent l =
          w.weightAfter e.state.placements l) ↔
      (w.dfsEntries R length checkpointEvery maxExpansions r).IsChain WithinWindow := by
  obtain ⟨start, hdepth, hempty, hrun⟩ :=
    dfsEntries_run w R length checkpointEvery maxExpansions r
  have hstart : start.volatile.recent.length = min recencyWindow start.state.depth := by
    rw [hdepth, hempty]
    rfl
  rw [← hrun.forall_iff (P := fun e => e.volatile.recent.length =
    min recencyWindow e.state.depth) hstart fun _ _ hn he => next_whole_iff hn he]
  constructor
  · intro h e he
    exact (restored_iff (hrun.sound e he)).mp (h e he)
  · intro h e he
    exact (restored_iff (hrun.sound e he)).mpr (h e he)

end Search

end GrammarWalker

/-! ## A second checkpoint after the first has failed

  A straight lane, a checkpoint after fourteen blocks, no finish. The memory is full when the first
  checkpoint and the block after it are taken back, and holds thirteen ids at the second. -/

def laneCatalogue : Dict String BlockDef :=
  ⟨[("S", cube "S" "Start"), ("B", cube "B" "None"), ("K", cube "K" "Checkpoint"),
    ("L", cube "L" "Checkpoint"), ("F", cube "F" "Finish")], by decide⟩

def ahead (block : String) : Move := ⟨block, ⟨0, 0, 1⟩, 0, 30, 30, true⟩

def laneGrammar : PlacementGrammar :=
  ⟨⟨[("S", [ahead "B"]), ("B", [ahead "B", ahead "K", ahead "L"]), ("K", [ahead "B"]),
    ("L", [ahead "B"])], by decide⟩⟩

def laneTables : Tables :=
  laneCatalogue.items.foldl (fun t kv => Tables.addBlock kv.1 kv.2 t) Tables.empty

def laneOptions : Options Rat :=
  ⟨7, 20, false, none, Dict.empty, true, [], none, 0.04, none, 1.0⟩

def laneWalker : GrammarWalker Rat :=
  ⟨7, laneGrammar, 20, false, 200, Dict.empty,
    allowed laneGrammar laneTables.waypoint ["S", "B", "K", "L", "F"] laneOptions, [], none, 0.04,
    none, 1.0, laneTables.cells, laneTables.waypoint, ["S"], ["F"]⟩

theorem second_checkpoint_forgets :
    GrammarWalker.init laneCatalogue laneGrammar ["S", "B", "K", "L", "F"] laneOptions =
        .ok laneWalker ∧
      ¬ ∀ e ∈ laneWalker.dfsEntries lowestDraws 16 14 100 (), laneWalker.Restored e ∧
        ∀ l, laneWalker.weight e.node e.state e.volatile.recent l =
          laneWalker.weightAfter e.state.placements l := by
  have hlost : ∃ e ∈ laneWalker.dfsEntries lowestDraws 16 14 100 (),
      e.volatile.recent ≠ recentOf e.state.placements := by
    decide +kernel
  refine ⟨rfl, fun h => ?_⟩
  obtain ⟨e, he, hne⟩ := hlost
  exact hne (h e he).1.recent

end TraxMania.Generation.GrammarWalk
