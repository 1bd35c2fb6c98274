import TraxMania.Generation.GrammarWalker
import Mathlib.Data.List.Chain

/-
  What the grammar walker returns. `WellFormed` says it of a list of placements, in terms of the
  catalogue alone. The search keeps `Walked`: occupied cells, column counts and the last placement
  are those of the placements so far, whatever subtrees were tried and taken back.
-/

namespace TraxMania.Generation.GrammarWalk

open TraxMania.Grid TraxMania.Catalogue Lib Lib.Draw Lib.Backtrack

/-! ## Well-formed routes -/

/-- The cells of a placement: of the variant that is selected for the height of its anchor. -/
def footprint (catalogue : Dict String BlockDef) (p : Placement) : List Cell :=
  match catalogue.get? p.blockId with
  | none => []
  | some block =>
    match variantFor block (variantKind p.y) with
    | none => []
    | some variant => shiftAll p.anchor (cellsOf variant p.rotation)

def waypointOf (catalogue : Dict String BlockDef) (blockId : String) : String :=
  ((catalogue.get? blockId).map BlockDef.waypoint).getD "None"

/-- The anchors are more than one cell apart in XZ. -/
def IsGapStep (p q : Placement) : Prop := 1 < max (q.x - p.x).natAbs (q.z - p.z).natAbs

/-- A gap step touches its predecessor nowhere, any other step shares a cell face with it. -/
def SoundStep (catalogue : Dict String BlockDef) (p q : Placement) : Prop :=
  (IsGapStep p q → ¬ Touches (footprint catalogue p) (footprint catalogue q)) ∧
    (¬ IsGapStep p q → Touches (footprint catalogue p) (footprint catalogue q))

def Covers (catalogue : Dict String BlockDef) (col : Int × Int) (p : Placement) : Prop :=
  col ∈ columnsOf (footprint catalogue p)

instance (catalogue : Dict String BlockDef) (col : Int × Int) (p : Placement) :
    Decidable (Covers catalogue col p) :=
  inferInstanceAs (Decidable (col ∈ columnsOf (footprint catalogue p)))

/-- How many placements cover a column. -/
def levels (catalogue : Dict String BlockDef) (route : List Placement) (col : Int × Int) : Int :=
  (route.filter fun p => decide (Covers catalogue col p)).length

structure WellFormed (catalogue : Dict String BlockDef) (pool require : List String)
    (length checkpointEvery : Int) (route : List Placement) : Prop where
  length_eq : (route.length : Int) = max length 1 + 1
  start : ∃ b rotation rest, route = Placement.ofAnchor b origin rotation :: rest ∧ b ∈ pool ∧
    waypointOf catalogue b = "Start" ∧ ∀ p ∈ rest, waypointOf catalogue p.blockId ≠ "Start"
  finish : ∃ rest f, route = rest ++ [f] ∧ waypointOf catalogue f.blockId = "Finish" ∧
    ∀ p ∈ rest, waypointOf catalogue p.blockId ≠ "Finish"
  checkpoints : ∀ (i : Nat) p, route[i]? = some p → waypointOf catalogue p.blockId = "Checkpoint" →
    0 < i ∧ 0 < checkpointEvery ∧ (i : Int) % checkpointEvery = 0
  apart : route.Pairwise fun p q => ∀ c ∈ footprint catalogue p, c ∉ footprint catalogue q
  inBounds : ∀ p ∈ route.tail, InBounds (footprint catalogue p)
  steps : route.IsChain (SoundStep catalogue)
  columns : ∀ col, levels catalogue route col ≤ maxLevelsPerColumn
  required : ∀ p ∈ require, ∃ q ∈ route, startsWith q.blockId p

/-! ## The constructor's tables -/

/-- The tables hold what the catalogue says of blocks of the pool. -/
structure TablesOf (catalogue : Dict String BlockDef) (pool : List String) (t : Tables) : Prop where
  cells : ∀ kv ∈ t.cells.items, kv.1.1 ∈ t.waypoint.keys ∧ ∃ block variant,
    catalogue.get? kv.1.1 = some block ∧ variantFor block kv.1.2.2 = some variant ∧
      kv.2 = cellsOf variant kv.1.2.1
  waypoint : ∀ kv ∈ t.waypoint.items, kv.1 ∈ pool ∧ ∃ block,
    catalogue.get? kv.1 = some block ∧ kv.2 = block.waypoint

theorem tablesOf_empty (catalogue : Dict String BlockDef) (pool : List String) :
    TablesOf catalogue pool Tables.empty where
  cells := by
    intro kv hkv
    cases hkv
  waypoint := by
    intro kv hkv
    cases hkv

theorem mem_orientations {block : BlockDef} {kind : String} {o : Oriented}
    (ho : o ∈ orientations block kind) :
    o.waypoint = block.waypoint ∧
      ∃ variant, variantFor block kind = some variant ∧ o.cells = cellsOf variant o.rotation := by
  unfold orientations at ho
  split at ho
  · cases ho
  · next variant hvariant =>
    obtain ⟨rotation, -, rfl⟩ := List.mem_map.mp ho
    exact ⟨rfl, variant, hvariant, rfl⟩

section Tables

variable {catalogue : Dict String BlockDef} {pool : List String}

theorem TablesOf.add {t : Tables} (ht : TablesOf catalogue pool t) {blockId kind : String}
    {block : BlockDef} (hblock : catalogue.get? blockId = some block) (hpool : blockId ∈ pool)
    {o : Oriented} (ho : o ∈ orientations block kind) :
    TablesOf catalogue pool (Tables.add blockId kind t o) := by
  obtain ⟨hway, variant, hvariant, hcells⟩ := mem_orientations ho
  have hkeys : ∀ k, k ∈ t.waypoint.keys → k ∈ (Tables.add blockId kind t o).waypoint.keys := by
    intro k hk
    exact Dict.mem_keys_upsert.mpr (Or.inr hk)
  exact {
    cells := by
      refine Dict.forall_upsert (P := fun (k : String × Int × String) (cs : List Cell) =>
        k.1 ∈ (Tables.add blockId kind t o).waypoint.keys ∧ ∃ block variant,
          catalogue.get? k.1 = some block ∧ variantFor block k.2.2 = some variant ∧
            cs = cellsOf variant k.2.1) (fun kv hkv => ?_) fun old _ => ?_
      · obtain ⟨hk, h⟩ := ht.cells kv hkv
        exact ⟨hkeys kv.1.1 hk, h⟩
      · exact ⟨Dict.mem_keys_upsert.mpr (Or.inl rfl), block, variant, hblock, hvariant, hcells⟩
    waypoint := by
      refine Dict.forall_upsert (P := fun k kind => k ∈ pool ∧ ∃ block,
        catalogue.get? k = some block ∧ kind = block.waypoint) ht.waypoint fun old _ => ?_
      exact ⟨hpool, block, hblock, hway⟩ }

theorem TablesOf.foldl_add {t : Tables} (ht : TablesOf catalogue pool t) {blockId kind : String}
    {block : BlockDef} (hblock : catalogue.get? blockId = some block) (hpool : blockId ∈ pool)
    (os : List Oriented) (hos : ∀ o ∈ os, o ∈ orientations block kind) :
    TablesOf catalogue pool (os.foldl (Tables.add blockId kind) t) := by
  induction os generalizing t with
  | nil => exact ht
  | cons o os ih =>
    exact ih (ht.add hblock hpool (hos o (by simp))) fun o' ho' => hos o' (by simp [ho'])

theorem TablesOf.addBlock {t : Tables} (ht : TablesOf catalogue pool t) {blockId : String}
    {block : BlockDef} (hblock : catalogue.get? blockId = some block) (hpool : blockId ∈ pool) :
    TablesOf catalogue pool (Tables.addBlock blockId block t) :=
  (ht.foldl_add hblock hpool _ fun _ ho => ho).foldl_add hblock hpool _ fun _ ho => ho

theorem tablesOf_fill {ids : List String} (hids : ∀ id ∈ ids, id ∈ pool) {t t' : Tables}
    (ht : TablesOf catalogue pool t) (h : Tables.fill catalogue ids t = .ok t') :
    TablesOf catalogue pool t' := by
  induction ids generalizing t with
  | nil =>
    cases h
    exact ht
  | cons id ids ih =>
    unfold Tables.fill at h
    split at h
    · cases h
    · next block hblock =>
      exact ih (fun i hi => hids i (by simp [hi])) (ht.addBlock hblock (hids id (by simp))) h

end Tables

/-! ## The walker after its constructor -/

variable {F : Type*}

/-- What the constructor stores of the catalogue and the pool. -/
structure Built (catalogue : Dict String BlockDef) (pool : List String) (w : GrammarWalker F) :
    Prop where
  tables : TablesOf catalogue pool ⟨w.cells, w.waypoint⟩
  starts : ∀ b ∈ w.starts, w.waypoint.get? b = some "Start"

theorem built_of_init {catalogue : Dict String BlockDef} {grammar : PlacementGrammar}
    {pool : List String} {o : Options F} {w : GrammarWalker F}
    (h : GrammarWalker.init catalogue grammar pool o = .ok w) :
    Built catalogue pool w ∧ w.require = o.requirePrefixes := by
  unfold GrammarWalker.init at h
  split at h
  · cases h
  · next t ht =>
    dsimp only at h
    split at h
    · cases h
    · split at h
      · cases h
      · cases h
        refine ⟨⟨tablesOf_fill (fun _ hid => hid) (tablesOf_empty catalogue pool) ht, ?_⟩, rfl⟩
        intro b hb
        exact of_decide_eq_true (List.mem_filter.mp hb).2

section Built

variable {catalogue : Dict String BlockDef} {pool : List String} {w : GrammarWalker F}

theorem Built.waypoint (hw : Built catalogue pool w) {b kind : String}
    (h : w.waypoint.get? b = some kind) : b ∈ pool ∧ waypointOf catalogue b = kind := by
  obtain ⟨hpool, block, hblock, hkind⟩ := hw.tables.waypoint _ (Dict.mem_items_of_get? h)
  refine ⟨hpool, ?_⟩
  unfold waypointOf
  rw [hblock, show kind = block.waypoint from hkind]
  rfl

/-- A block with cells in the table has its waypoint there, and covers these cells. -/
theorem Built.cells (hw : Built catalogue pool w) {p : Placement} {cs : List Cell}
    (h : w.cells.get? (p.blockId, p.rotation, variantKind p.y) = some cs) :
    footprint catalogue p = shiftAll p.anchor cs ∧
      (w.waypoint.get? p.blockId).getD "None" = waypointOf catalogue p.blockId := by
  obtain ⟨hkey, block, variant, hblock, hvariant, hcs⟩ :=
    hw.tables.cells _ (Dict.mem_items_of_get? h)
  dsimp only at hkey hblock hvariant hcs
  refine ⟨?_, ?_⟩
  · unfold footprint
    rw [hblock]
    dsimp only
    rw [hvariant, hcs]
  · obtain ⟨kind, hkind⟩ := Dict.mem_keys.mp hkey
    have hget := Dict.get?_eq_some hkind
    rw [hget, (hw.waypoint hget).2]
    rfl

end Built

/-! ## Moves that are tried -/

/-- A turn keeps how far a vector reaches in XZ. -/
theorem max_natAbs_rotateVector (v : Cell) (d : Int) :
    max (rotateVector v d).x.natAbs (rotateVector v d).z.natAbs = max v.x.natAbs v.z.natAbs := by
  rcases mod_four_cases d with h | h | h | h
  · rw [rotateVector_of_zero h]
  · rw [rotateVector_of_one h, Int.natAbs_neg, max_comm]
  · rw [rotateVector_of_two h, Int.natAbs_neg, Int.natAbs_neg]
  · rw [rotateVector_of_three h, Int.natAbs_neg, max_comm]

/-- What is known of a landing that is tried at a node. -/
structure Landed (w : GrammarWalker F) (length checkpointEvery : Int) (n : Node) (k : State)
    (l : Landing) : Prop where
  apply : l.move.apply n.prev.anchor n.prev.rotation = (l.anchor, l.rotation)
  cells : ∃ cs, w.cells.get? (l.move.block, l.rotation, variantKind l.anchor.y) = some cs ∧
    l.footprint = shiftAll l.anchor cs
  cols : l.cols = columnsOf l.footprint
  source : ∃ cs, w.cells.get? (n.prev.blockId, n.prev.rotation, variantKind n.prev.y) = some cs ∧
    w.Admissible n (shiftAll n.prev.anchor cs) k l
  want : (w.waypoint.get? l.move.block).getD "None" = wanted length checkpointEvery n.steps ∨
    wanted length checkpointEvery n.steps = "Checkpoint" ∧
      (w.waypoint.get? l.move.block).getD "None" = "None"

variable {w : GrammarWalker F} {length checkpointEvery maxExpansions : Int}

theorem clipFirst_subset {out : List Move} {m : Move} (h : m ∈ w.clipFirst out) : m ∈ out := by
  unfold GrammarWalker.clipFirst at h
  dsimp only at h
  split at h
  · exact (List.mem_filter.mp h).1
  · split at h
    · exact (List.mem_filter.mp h).1
    · exact h

/-- A candidate is of the waypoint kind that is wanted. -/
theorem candidates_waypoint {blockId want : String} {incoming : Option Cell} {m : Move}
    (h : m ∈ w.candidates blockId want incoming) : (w.waypoint.get? m.block).getD "None" = want := by
  unfold GrammarWalker.candidates at h
  rcases List.mem_append.mp h with h | h
  · have hkeeps := (List.mem_filter.mp (clipFirst_subset h)).2
    unfold GrammarWalker.keeps at hkeeps
    simp only [Bool.and_eq_true, beq_iff_eq] at hkeeps
    exact hkeeps.1.1
  · unfold GrammarWalker.jumpMoves at h
    split at h
    · obtain ⟨j, hj, rfl⟩ := List.mem_map.mp h
      have hj := (List.mem_filter.mp hj).2
      simp only [Bool.and_eq_true, beq_iff_eq] at hj
      exact hj.1.2
    · cases h

/-- Where a move lands, and that it passed the checks. -/
theorem land_spec {n : Node} {source : List Cell} {k : State} {m : Move} {l : Landing}
    (h : w.land n source k m = some l) :
    l.move = m ∧ m.apply n.prev.anchor n.prev.rotation = (l.anchor, l.rotation) ∧
      (∃ cs, w.cells.get? (m.block, l.rotation, variantKind l.anchor.y) = some cs ∧
        l.footprint = shiftAll l.anchor cs) ∧
      l.cols = columnsOf l.footprint ∧ w.Admissible n source k l := by
  unfold GrammarWalker.land at h
  dsimp only at h
  split at h
  · cases h
  · next cs hcs =>
    split at h
    · next hadm =>
      cases h
      exact ⟨rfl, rfl, ⟨cs, hcs, rfl⟩, rfl, hadm⟩
    · cases h

section Search

variable {ρ : Type*} [Zero F] [Add F] [Mul F] [Div F] [LE F] [DecidableLE F] [BEq F] [IntCast F]
  [OfScientific F] {R : Rng ρ F}

omit [Div F] [BEq F] [IntCast F] [OfScientific F] in
theorem mem_shuffle {scored : List (Landing × F)} {r : ρ} {l : Landing}
    (h : l ∈ (GrammarWalker.shuffle R scored r).1) : ∃ weight, (l, weight) ∈ scored := by
  have hmem := (drawAll_perm R (fun items => decide (total items ≤ 0)) (le_refl _) r).mem_iff.mp h
  obtain ⟨⟨l', weight⟩, hl', rfl⟩ := List.mem_map.mp hmem
  exact ⟨weight, hl'⟩

omit [Div F] [BEq F] [IntCast F] [OfScientific F] in
/-- The order keeps to what was scored. -/
theorem mem_order {scored : List (Landing × F)} {r : ρ} {l : Landing}
    (h : l ∈ (GrammarWalker.order R scored r).1) : ∃ weight, (l, weight) ∈ scored := by
  rcases List.mem_append.mp h with h | h
  · obtain ⟨weight, hl⟩ := mem_shuffle h
    exact ⟨weight, (List.mem_filter.mp hl).1⟩
  · obtain ⟨weight, hl⟩ := mem_shuffle h
    exact ⟨weight, (List.mem_filter.mp hl).1⟩

/-- What `dfs` does before its loop: it spends one expansion and orders landings of moves that are
candidates, of plain ones where no checkpoint is. -/
theorem expand_land {n : Node} {k : State} {a a' : Volatile ρ} {ls : List Landing}
    (h : w.expand R length checkpointEvery maxExpansions n k a = .ok (ls, a')) :
    a.expansions < maxExpansions ∧ a'.expansions = a.expansions + 1 ∧
      ∃ cs, w.cells.get? (n.prev.blockId, n.prev.rotation, variantKind n.prev.y) = some cs ∧
        ∀ l ∈ ls, ∃ m, w.land n (shiftAll n.prev.anchor cs) k m = some l ∧
          (m ∈ w.candidates n.prev.blockId (wanted length checkpointEvery n.steps) n.incoming ∨
            wanted length checkpointEvery n.steps = "Checkpoint" ∧
              m ∈ w.candidates n.prev.blockId "None" n.incoming) := by
  unfold GrammarWalker.expand at h
  dsimp only at h
  split at h
  · cases h
  · next hbudget =>
    split at h
    · cases h
    · next cs hcs =>
      obtain ⟨hls, ha⟩ := Prod.mk.inj (Except.ok.inj h)
      refine ⟨by omega, by rw [← ha], cs, hcs, fun l hl => ?_⟩
      rw [← hls] at hl
      obtain ⟨weight, hscored⟩ := mem_order hl
      obtain ⟨l', hl', heq⟩ := List.mem_map.mp hscored
      obtain ⟨rfl, -⟩ := Prod.mk.inj heq
      obtain ⟨m, hm, hland⟩ := List.mem_filterMap.mp hl'
      refine ⟨m, hland, ?_⟩
      split at hm
      · next hfall => exact Or.inr ⟨hfall.2, hm⟩
      · exact Or.inl hm

/-- Its landings are landings of the walk. -/
theorem expand_spec {n : Node} {k : State} {a a' : Volatile ρ} {ls : List Landing}
    (h : w.expand R length checkpointEvery maxExpansions n k a = .ok (ls, a')) :
    a.expansions < maxExpansions ∧ a'.expansions = a.expansions + 1 ∧
      ∀ l ∈ ls, Landed w length checkpointEvery n k l := by
  obtain ⟨hbudget, hspent, cs, hcs, hlands⟩ := expand_land h
  refine ⟨hbudget, hspent, fun l hl => ?_⟩
  obtain ⟨m, hland, hm⟩ := hlands l hl
  obtain ⟨rfl, happly, hcells, hcols, hadm⟩ := land_spec hland
  refine ⟨happly, hcells, hcols, ⟨cs, hcs, hadm⟩, ?_⟩
  rcases hm with hm | ⟨hwant, hm⟩
  · exact Or.inl (candidates_waypoint hm)
  · exact Or.inr ⟨hwant, candidates_waypoint hm⟩

theorem landed_of_offered {n : Node} {k : State} {l : Landing}
    (h : (w.search R length checkpointEvery maxExpansions).Offered n k l) :
    Landed w length checkpointEvery n k l := by
  obtain ⟨a, ls, a', he, hl⟩ := h
  exact (expand_spec he).2.2 l hl

end Search

/-! ## The placements so far -/

/-- At the node `n` the placements of `k` stand, and what `k` says of them is true. -/
structure Walked (catalogue : Dict String BlockDef) (pool : List String)
    (length checkpointEvery : Int) (n : Node) (k : State) : Prop where
  start : ∃ b rotation rest, k.placements = Placement.ofAnchor b origin rotation :: rest ∧
    b ∈ pool ∧ waypointOf catalogue b = "Start" ∧ ∀ p ∈ rest,
      waypointOf catalogue p.blockId = "Checkpoint" ∨ waypointOf catalogue p.blockId = "None"
  prev : k.placements.getLast? = some n.prev
  steps : n.steps = k.placements.length
  short : n.steps ≤ max length 1
  checkpoints : ∀ (i : Nat) p, k.placements[i]? = some p →
    waypointOf catalogue p.blockId = "Checkpoint" →
      0 < i ∧ 0 < checkpointEvery ∧ (i : Int) % checkpointEvery = 0
  occupied : ∀ c, c ∈ k.occupied ↔ ∃ p ∈ k.placements, c ∈ footprint catalogue p
  apart : k.placements.Pairwise fun p q =>
    ∀ c ∈ footprint catalogue p, c ∉ footprint catalogue q
  inBounds : ∀ p ∈ k.placements.tail, InBounds (footprint catalogue p)
  chain : k.placements.IsChain (SoundStep catalogue)
  counted : ∀ col, levels catalogue k.placements col ≤ k.columns col
  columns : ∀ col, levels catalogue k.placements col ≤ maxLevelsPerColumn

section Step

variable {catalogue : Dict String BlockDef} {pool : List String} {n : Node} {k : State}
  {l : Landing}

theorem Landed.footprint_eq (hw : Built catalogue pool w)
    (hl : Landed w length checkpointEvery n k l) : footprint catalogue l.placement = l.footprint := by
  obtain ⟨cs, hget, hfoot⟩ := hl.cells
  rw [hfoot]
  exact (hw.cells (p := l.placement) hget).1

/-- The waypoint of the block that is placed. -/
theorem Landed.waypoint (hw : Built catalogue pool w)
    (hl : Landed w length checkpointEvery n k l) :
    waypointOf catalogue l.placement.blockId = wanted length checkpointEvery n.steps ∨
      wanted length checkpointEvery n.steps = "Checkpoint" ∧
        waypointOf catalogue l.placement.blockId = "None" := by
  obtain ⟨cs, hget, -⟩ := hl.cells
  have hway := (hw.cells (p := l.placement) hget).2
  rw [← hway]
  exact hl.want

/-- The move is a gap exactly when the step it makes is one. -/
theorem Landed.isGap_iff (hl : Landed w length checkpointEvery n k l) :
    l.move.isGap = true ↔ IsGapStep n.prev l.placement := by
  have hanchor : n.prev.anchor + rotateVector l.move.offset n.prev.rotation = l.anchor :=
    (Prod.mk.inj hl.apply).1
  have hdiff := Cell.add_sub_self n.prev.anchor (rotateVector l.move.offset n.prev.rotation)
  rw [hanchor] at hdiff
  have hx : l.anchor.x - n.prev.x = (rotateVector l.move.offset n.prev.rotation).x :=
    congrArg Cell.x hdiff
  have hz : l.anchor.z - n.prev.z = (rotateVector l.move.offset n.prev.rotation).z :=
    congrArg Cell.z hdiff
  show decide (1 < max l.move.offset.x.natAbs l.move.offset.z.natAbs) = true ↔
    1 < max (l.anchor.x - n.prev.x).natAbs (l.anchor.z - n.prev.z).natAbs
  rw [decide_eq_true_iff, hx, hz, max_natAbs_rotateVector]

theorem Landed.soundStep (hw : Built catalogue pool w)
    (hl : Landed w length checkpointEvery n k l) : SoundStep catalogue n.prev l.placement := by
  obtain ⟨cs, hget, hadm⟩ := hl.source
  have hmeets := hadm.2.2.1
  unfold MeetsAs at hmeets
  rw [← (hw.cells hget).1, ← hl.footprint_eq hw] at hmeets
  refine ⟨fun hgap => ?_, fun hgap => ?_⟩
  · rwa [if_pos (hl.isGap_iff.mpr hgap)] at hmeets
  · rwa [if_neg fun h => hgap (hl.isGap_iff.mp h)] at hmeets

theorem Landed.covers_iff (hw : Built catalogue pool w)
    (hl : Landed w length checkpointEvery n k l) (col : Int × Int) :
    Covers catalogue col l.placement ↔ col ∈ l.cols := by
  unfold Covers
  rw [hl.footprint_eq hw, hl.cols]

end Step

/-! ## What is wanted -/

theorem wanted_finish {steps : Int} (h : wanted length checkpointEvery steps = "Finish") :
    length ≤ steps := by
  unfold wanted at h
  split at h
  · assumption
  · split at h
    · exact absurd h (by decide)
    · exact absurd h (by decide)

theorem wanted_checkpoint {steps : Int} (h : wanted length checkpointEvery steps = "Checkpoint") :
    0 < checkpointEvery ∧ 0 < steps ∧ steps % checkpointEvery = 0 := by
  unfold wanted at h
  split at h
  · exact absurd h (by decide)
  · split at h
    · assumption
    · exact absurd h (by decide)

/-- Before the length is reached, a checkpoint or a plain block is wanted. -/
theorem wanted_of_ne_finish {steps : Int}
    (h : wanted length checkpointEvery steps ≠ "Finish") :
    steps < length ∧ (wanted length checkpointEvery steps = "Checkpoint" ∨
      wanted length checkpointEvery steps = "None") := by
  unfold wanted at h ⊢
  by_cases hlen : length ≤ steps
  · rw [if_pos hlen] at h
    exact absurd rfl h
  · rw [if_neg hlen]
    refine ⟨by omega, ?_⟩
    split
    · exact Or.inl rfl
    · exact Or.inr rfl

/-! ## One more placement -/

theorem levels_append (catalogue : Dict String BlockDef) (route : List Placement) (p : Placement)
    (col : Int × Int) : levels catalogue (route ++ [p]) col =
      levels catalogue route col + if Covers catalogue col p then 1 else 0 := by
  unfold levels
  rw [List.filter_append, List.length_append, Int.natCast_add]
  by_cases h : Covers catalogue col p
  · rw [if_pos h, List.filter_singleton, decide_eq_true h]
    rfl
  · rw [if_neg h, List.filter_singleton, decide_eq_false h]
    rfl

namespace Walked

variable {catalogue : Dict String BlockDef} {pool : List String} {n : Node} {k : State}
  {l : Landing}

theorem apart_append (hw : Built catalogue pool w)
    (hd : Walked catalogue pool length checkpointEvery n k)
    (hl : Landed w length checkpointEvery n k l) :
    (k.placements ++ [l.placement]).Pairwise fun p q =>
      ∀ c ∈ footprint catalogue p, c ∉ footprint catalogue q := by
  rw [List.pairwise_append]
  refine ⟨hd.apart, List.pairwise_singleton _ _, fun p hp q hq c hc hc' => ?_⟩
  rw [List.mem_singleton.mp hq, hl.footprint_eq hw] at hc'
  obtain ⟨cs, -, hadm⟩ := hl.source
  exact hadm.2.1 c hc' ((hd.occupied c).mpr ⟨p, hp, hc⟩)

theorem chain_append (hw : Built catalogue pool w)
    (hd : Walked catalogue pool length checkpointEvery n k)
    (hl : Landed w length checkpointEvery n k l) :
    (k.placements ++ [l.placement]).IsChain (SoundStep catalogue) := by
  rw [List.isChain_append]
  refine ⟨hd.chain, List.isChain_singleton _, fun p hp q hq => ?_⟩
  rw [hd.prev] at hp
  obtain rfl := Option.some.inj hp
  obtain rfl := Option.some.inj hq
  exact hl.soundStep hw

theorem tail_append (hd : Walked catalogue pool length checkpointEvery n k) (p : Placement) :
    (k.placements ++ [p]).tail = k.placements.tail ++ [p] := by
  obtain ⟨b, rotation, rest, hk, -⟩ := hd.start
  rw [hk]
  rfl

theorem inBounds_append (hw : Built catalogue pool w)
    (hd : Walked catalogue pool length checkpointEvery n k)
    (hl : Landed w length checkpointEvery n k l) :
    ∀ p ∈ (k.placements ++ [l.placement]).tail, InBounds (footprint catalogue p) := by
  intro p hp
  rw [hd.tail_append, List.mem_append, List.mem_singleton] at hp
  rcases hp with hp | rfl
  · exact hd.inBounds p hp
  · obtain ⟨cs, -, hadm⟩ := hl.source
    rw [hl.footprint_eq hw]
    exact hadm.1

/-- A column the landing covers had room for one more level. -/
theorem columns_append (hw : Built catalogue pool w)
    (hd : Walked catalogue pool length checkpointEvery n k)
    (hl : Landed w length checkpointEvery n k l) (col : Int × Int) :
    levels catalogue (k.placements ++ [l.placement]) col ≤ maxLevelsPerColumn := by
  have hcounted := hd.counted col
  rw [levels_append]
  split
  · next hcovers =>
    obtain ⟨cs, -, hadm⟩ := hl.source
    have hroom := hadm.2.2.2.2 col ((hl.covers_iff hw col).mp hcovers)
    omega
  · have := hd.columns col
    omega

theorem checkpoints_append (hw : Built catalogue pool w)
    (hd : Walked catalogue pool length checkpointEvery n k)
    (hl : Landed w length checkpointEvery n k l) (i : Nat) (p : Placement)
    (hp : (k.placements ++ [l.placement])[i]? = some p)
    (hkind : waypointOf catalogue p.blockId = "Checkpoint") :
    0 < i ∧ 0 < checkpointEvery ∧ (i : Int) % checkpointEvery = 0 := by
  by_cases hi : i < k.placements.length
  · rw [List.getElem?_append_left hi] at hp
    exact hd.checkpoints i p hp hkind
  · rw [List.getElem?_append_right (by omega)] at hp
    obtain ⟨hlast, hget⟩ := List.getElem?_eq_some_iff.mp hp
    rw [List.length_singleton] at hlast
    have hieq : (i : Int) = n.steps := by
      rw [hd.steps]
      omega
    have hpl : p = l.placement := by
      rw [← hget, List.getElem_singleton]
    rw [hpl] at hkind
    have hwanted : wanted length checkpointEvery n.steps = "Checkpoint" := by
      rcases hl.waypoint hw with h | h
      · rw [← h, hkind]
      · exact h.1
    obtain ⟨hcadence, hpos, hmod⟩ := wanted_checkpoint hwanted
    rw [hieq]
    exact ⟨by omega, hcadence, hmod⟩

/-- A block that is not the finish, placed. -/
theorem step (hw : Built catalogue pool w)
    (hd : Walked catalogue pool length checkpointEvery n k)
    (hl : Landed w length checkpointEvery n k l)
    (hwanted : wanted length checkpointEvery n.steps ≠ "Finish") (visited : Finset String)
    (incoming : Option Cell) (before : Option String) :
    Walked catalogue pool length checkpointEvery ⟨l.placement, incoming, n.steps + 1, before⟩
      ⟨k.placements ++ [l.placement], k.occupied ∪ l.footprint.toFinset,
        addColumns k.columns l.cols 1, visited⟩ := by
  obtain ⟨hlt, hkinds⟩ := wanted_of_ne_finish hwanted
  have hkind : waypointOf catalogue l.placement.blockId = "Checkpoint" ∨
      waypointOf catalogue l.placement.blockId = "None" := by
    rcases hl.waypoint hw with h | h
    · rw [h]
      exact hkinds
    · exact Or.inr h.2
  exact {
    start := by
      obtain ⟨b, rotation, rest, hk, hb, hstart, hrest⟩ := hd.start
      refine ⟨b, rotation, rest ++ [l.placement], by rw [hk]; rfl, hb, hstart, fun p hp => ?_⟩
      rw [List.mem_append, List.mem_singleton] at hp
      rcases hp with hp | rfl
      · exact hrest p hp
      · exact hkind
    prev := List.getLast?_concat
    steps := by
      have := hd.steps
      rw [List.length_append, List.length_singleton]
      push_cast
      omega
    short := by
      show n.steps + 1 ≤ max length 1
      omega
    checkpoints := hd.checkpoints_append hw hl
    occupied := by
      intro c
      rw [Finset.mem_union, hd.occupied, List.mem_toFinset, ← hl.footprint_eq hw]
      simp only [List.mem_append, List.mem_singleton, or_and_right, exists_or, exists_eq_left]
    apart := hd.apart_append hw hl
    inBounds := hd.inBounds_append hw hl
    chain := hd.chain_append hw hl
    counted := by
      intro col
      have hcounted := hd.counted col
      show _ ≤ addColumns k.columns l.cols 1 col
      unfold addColumns
      rw [levels_append]
      by_cases hcovers : Covers catalogue col l.placement
      · rw [if_pos hcovers, if_pos ((hl.covers_iff hw col).mp hcovers)]
        omega
      · rw [if_neg hcovers, if_neg fun h => hcovers ((hl.covers_iff hw col).mpr h)]
        omega
    columns := hd.columns_append hw hl }

/-- A finish, placed: all that a well-formed route asks but the required prefixes. -/
theorem close (hw : Built catalogue pool w)
    (hd : Walked catalogue pool length checkpointEvery n k)
    (hl : Landed w length checkpointEvery n k l)
    (hwanted : wanted length checkpointEvery n.steps = "Finish") :
    WellFormed catalogue pool [] length checkpointEvery (k.placements ++ [l.placement]) := by
  have hlen := wanted_finish hwanted
  have hkind : waypointOf catalogue l.placement.blockId = "Finish" := by
    rcases hl.waypoint hw with h | h
    · rw [h, hwanted]
    · exact absurd (hwanted.symm.trans h.1) (by decide)
  obtain ⟨b, rotation, rest, hk, hb, hstart, hrest⟩ := hd.start
  exact {
    length_eq := by
      have hsteps := hd.steps
      have hshort := hd.short
      rw [hk, List.length_cons] at hsteps
      rw [hk, List.length_append, List.length_cons, List.length_singleton]
      push_cast at hsteps ⊢
      omega
    start := by
      refine ⟨b, rotation, rest ++ [l.placement], by rw [hk]; rfl, hb, hstart, fun p hp => ?_⟩
      rw [List.mem_append, List.mem_singleton] at hp
      rcases hp with hp | rfl
      · rcases hrest p hp with h | h
        · rw [h]
          decide
        · rw [h]
          decide
      · rw [hkind]
        decide
    finish := by
      refine ⟨k.placements, l.placement, rfl, hkind, fun p hp => ?_⟩
      rw [hk] at hp
      rcases List.mem_cons.mp hp with rfl | hp
      · show waypointOf catalogue b ≠ "Finish"
        rw [hstart]
        decide
      · rcases hrest p hp with h | h
        · rw [h]
          decide
        · rw [h]
          decide
    checkpoints := hd.checkpoints_append hw hl
    apart := hd.apart_append hw hl
    inBounds := hd.inBounds_append hw hl
    steps := hd.chain_append hw hl
    columns := hd.columns_append hw hl
    required := by
      intro p hp
      cases hp }

end Walked

/-- The start block alone. -/
theorem walked_start {catalogue : Dict String BlockDef} {pool : List String}
    (hw : Built catalogue pool w) {b : String} {rotation : Int} {cs : List Cell}
    (hb : w.waypoint.get? b = some "Start")
    (hcs : w.cells.get? (b, rotation, variantKind origin.y) = some cs) :
    Walked catalogue pool length checkpointEvery
      ⟨Placement.ofAnchor b origin rotation, none, 1, none⟩
      (w.startState (Placement.ofAnchor b origin rotation) cs) := by
  obtain ⟨hpool, hway⟩ := hw.waypoint hb
  have hfoot : footprint catalogue (Placement.ofAnchor b origin rotation) = shiftAll origin cs :=
    (hw.cells (p := Placement.ofAnchor b origin rotation) hcs).1
  have hlevels : ∀ col, levels catalogue [Placement.ofAnchor b origin rotation] col =
      if Covers catalogue col (Placement.ofAnchor b origin rotation) then 1 else 0 := by
    intro col
    exact (levels_append catalogue [] _ col).trans (Int.zero_add _)
  exact {
    start := by
      refine ⟨b, rotation, [], rfl, hpool, hway, fun p hp => ?_⟩
      cases hp
    prev := rfl
    steps := rfl
    short := le_max_right _ _
    checkpoints := by
      intro i p hp hkind
      obtain ⟨hi, hget⟩ := List.getElem?_eq_some_iff.mp hp
      have hpeq : p = Placement.ofAnchor b origin rotation := by
        rw [← hget]
        exact List.getElem_singleton hi
      rw [hpeq, Placement.blockId_ofAnchor, hway] at hkind
      exact absurd hkind (by decide)
    occupied := by
      intro c
      show c ∈ (shiftAll origin cs).toFinset ↔
        ∃ p ∈ [Placement.ofAnchor b origin rotation], c ∈ footprint catalogue p
      rw [List.mem_toFinset]
      simp only [List.mem_singleton, exists_eq_left, hfoot]
    apart := List.pairwise_singleton _ _
    inBounds := by
      intro p hp
      cases hp
    chain := List.isChain_singleton _
    counted := by
      intro col
      show levels catalogue [Placement.ofAnchor b origin rotation] col ≤
        (((shiftAll origin cs).toFinset.filter fun c => (c.x, c.z) = col).card : Int)
      rw [hlevels]
      split
      · next hcovers =>
        unfold Covers columnsOf at hcovers
        rw [hfoot, List.mem_toFinset] at hcovers
        obtain ⟨c, hc, hcol⟩ := List.mem_map.mp hcovers
        have hmem : c ∈ (shiftAll origin cs).toFinset.filter fun c => (c.x, c.z) = col :=
          Finset.mem_filter.mpr ⟨List.mem_toFinset.mpr hc, hcol⟩
        have hpos := Finset.card_pos.mpr ⟨c, hmem⟩
        omega
      · omega
    columns := by
      intro col
      show levels catalogue [Placement.ofAnchor b origin rotation] col ≤ maxLevelsPerColumn
      rw [hlevels]
      unfold maxLevelsPerColumn
      split
      · omega
      · omega }

/-! ## The search -/

section Landing

variable {n n₁ : Node} {k k₁ : State} {l : Landing} {back : State → State}

/-- The only landings that end the search are those of the finish. -/
theorem tryLanding_close (h : w.tryLanding length checkpointEvery n k l = .close k₁) :
    wanted length checkpointEvery n.steps = "Finish" ∧
      k₁ = { k with placements := k.placements ++ [l.placement] } := by
  unfold GrammarWalker.tryLanding at h
  dsimp only at h
  split at h
  · next hwanted =>
    cases h
    exact ⟨hwanted, rfl⟩
  · cases h

/-- What a landing descends to, and how it is taken back. -/
theorem tryLanding_descend (h : w.tryLanding length checkpointEvery n k l = .descend k₁ n₁ back) :
    wanted length checkpointEvery n.steps ≠ "Finish" ∧
      k₁ = ⟨k.placements ++ [l.placement], k.occupied ∪ l.footprint.toFinset,
        addColumns k.columns l.cols 1, k.visited ∪ w.reached k.visited l.move.block⟩ ∧
      n₁ = ⟨l.placement, some (reverseOffset l.move), n.steps + 1, some n.prev.blockId⟩ ∧
      back = fun k' => ⟨k'.placements.dropLast, k'.occupied \ l.footprint.toFinset,
        addColumns k'.columns l.cols (-1), k'.visited \ w.reached k.visited l.move.block⟩ := by
  unfold GrammarWalker.tryLanding at h
  dsimp only at h
  split at h
  · cases h
  · next hwanted =>
    cases h
    exact ⟨hwanted, rfl, rfl, rfl⟩

end Landing

theorem addColumns_cancel (columns : Int × Int → Int) (cols : Finset (Int × Int)) :
    addColumns (addColumns columns cols 1) cols (-1) = columns := by
  funext col
  unfold addColumns
  by_cases h : col ∈ cols
  · rw [if_pos h, if_pos h]
    omega
  · rw [if_neg h, if_neg h]

/-- What a block reaches first was not reached before. -/
theorem reached_disjoint (w : GrammarWalker F) (visited : Finset String) (block : String) :
    Disjoint visited (w.reached visited block) := by
  rw [Finset.disjoint_right]
  intro p hp
  have hp := (List.mem_filter.mp (List.mem_toFinset.mp hp)).2
  simp only [Bool.and_eq_true, decide_eq_true_eq] at hp
  exact hp.1

section Search

variable {ρ : Type*} [Zero F] [Add F] [Mul F] [Div F] [LE F] [DecidableLE F] [BEq F] [IntCast F]
  [OfScientific F] {R : Rng ρ F} {catalogue : Dict String BlockDef} {pool : List String}

/-- Taking a placement back restores all four structures. -/
theorem search_undoes : (w.search R length checkpointEvery maxExpansions).Undoes := by
  intro n k l k' n' back hoffered hat
  obtain ⟨cs, -, hadm⟩ := (landed_of_offered hoffered).source
  have hfree : Disjoint k.occupied l.footprint.toFinset := by
    rw [Finset.disjoint_right]
    intro c hc
    exact hadm.2.1 c (List.mem_toFinset.mp hc)
  obtain ⟨-, rfl, -, rfl⟩ := tryLanding_descend hat
  refine State.ext ?_ ?_ ?_ ?_
  · exact List.dropLast_concat
  · exact Finset.union_sdiff_cancel_right hfree
  · exact addColumns_cancel k.columns l.cols
  · exact Finset.union_sdiff_cancel_right (reached_disjoint w k.visited l.move.block)

/-- What a chain of moves ends in. -/
theorem wellFormed_of_leads (hw : Built catalogue pool w) {n : Node} {k k' : State}
    (h : (w.search R length checkpointEvery maxExpansions).Leads n k k')
    (hd : Walked catalogue pool length checkpointEvery n k) :
    WellFormed catalogue pool [] length checkpointEvery k'.placements := by
  induction h with
  | @close n k k' l hoffered hat =>
    obtain ⟨hwanted, rfl⟩ := tryLanding_close hat
    exact hd.close hw (landed_of_offered hoffered) hwanted
  | @descend n n₁ k k₁ k' l back hoffered hat _ ih =>
    obtain ⟨hwanted, rfl, rfl, -⟩ := tryLanding_descend hat
    exact ih (hd.step hw (landed_of_offered hoffered) hwanted _ _ _)

/-- Every node uses up one expansion of the budget. -/
theorem search_spends : (w.search R length checkpointEvery maxExpansions).Spends
    fun a => (maxExpansions - a.expansions).toNat where
  expand := by
    intro n k a ls a' he
    obtain ⟨hlt, hspent, -⟩ := expand_spec he
    rw [hspent]
    omega
  note _ _ := rfl
  unnote _ := rfl

/-- The budget ends the recursion of `dfs` before the fuel does. -/
theorem attemptFrom_fuel (start : Placement) (r : ρ) (d : Nat) :
    w.attemptFrom R length checkpointEvery maxExpansions (maxExpansions.toNat + 1 + d) start r =
      w.attemptFrom R length checkpointEvery maxExpansions (maxExpansions.toNat + 1) start r := by
  have hdfs : ∀ n k, (w.search R length checkpointEvery maxExpansions).dfs (.routeDeadEnd "")
        (maxExpansions.toNat + 1 + d) n k ⟨0, [], r⟩ =
      (w.search R length checkpointEvery maxExpansions).dfs (.routeDeadEnd "")
        (maxExpansions.toNat + 1) n k ⟨0, [], r⟩ :=
    fun n k => Search.dfs_fuel_add search_spends n k _
      (Nat.lt_succ_of_le (Nat.le_of_eq (congrArg Int.toNat (Int.sub_zero maxExpansions)))) d
  unfold GrammarWalker.attemptFrom
  split
  · rfl
  · rw [hdfs]

/-- A route that `_attempt` returns, before the required prefixes are looked for. -/
theorem attempt_wellFormed (hw : Built catalogue pool w) {r : ρ} {route : List Placement}
    (h : w.attempt R length checkpointEvery maxExpansions r = .ok route) :
    WellFormed catalogue pool [] length checkpointEvery route := by
  unfold GrammarWalker.attempt at h
  split at h
  · cases h
  · next startId r' hchoice =>
    have hstart := hw.starts startId (choice_mem hchoice)
    dsimp only at h
    unfold GrammarWalker.attemptFrom at h
    split at h
    · cases h
    · next cs hcs =>
      split at h
      · next k a hfound =>
        cases h
        exact wellFormed_of_leads hw (Search.dfs_found search_undoes hfound)
          (walked_start hw hstart hcs)
      · cases h
      · cases h

/-- A returned route has every prefix the constructor was given. -/
theorem attempts_wellFormed (hw : Built catalogue pool w) {seeded : String → ρ} {total : Int}
    {left attempt : Nat} {last : String} {route : List Placement}
    (h : w.attempts R seeded length checkpointEvery maxExpansions total left attempt last =
      .ok route) : WellFormed catalogue pool w.require length checkpointEvery route := by
  induction left generalizing attempt last with
  | zero => cases h
  | succ left ih =>
    unfold GrammarWalker.attempts at h
    dsimp only at h
    split at h
    · next route' hattempt =>
      split at h
      · next hmissing =>
        cases h
        have hbase := attempt_wellFormed hw hattempt
        refine { hbase with required := fun p hp => ?_ }
        by_contra hnone
        have hp' : p ∈ w.missing route := by
          refine List.mem_filter.mpr ⟨hp, ?_⟩
          rw [Bool.not_eq_true']
          refine List.any_eq_false.mpr fun q hq hstarts => ?_
          exact hnone ⟨q, hq, hstarts⟩
        rw [hmissing] at hp'
        cases hp'
      · exact ih h
    · exact ih h
    · cases h

/-- Every route the grammar walker returns is well formed. -/
theorem generate_wellFormed {grammar : PlacementGrammar} {o : Options F}
    (hw : GrammarWalker.init catalogue grammar pool o = .ok w) {seeded : String → ρ} {total : Int}
    {route : List Placement}
    (h : w.generate R seeded length checkpointEvery maxExpansions total = .ok route) :
    WellFormed catalogue pool o.requirePrefixes length checkpointEvery route := by
  obtain ⟨hb, hrequire⟩ := built_of_init hw
  rw [← hrequire]
  exact attempts_wellFormed hb h

end Search

/-! ## Three blocks in a row -/

/-- A block of one cell. -/
def cube (blockId waypoint : String) : BlockDef :=
  ⟨blockId, waypoint, [⟨"ground", 0, ⟨1, 1, 1⟩, [⟨⟨0, 0, 0⟩, Dict.empty⟩]⟩]⟩

def rowCatalogue : Dict String BlockDef :=
  ⟨[("S", cube "S" "Start"), ("B", cube "B" "None"), ("F", cube "F" "Finish")], by decide⟩

def rowGrammar : PlacementGrammar :=
  ⟨⟨[("S", [⟨"B", ⟨0, 0, 1⟩, 0, 30, 30, true⟩]), ("B", [⟨"F", ⟨0, 0, 1⟩, 0, 30, 30, true⟩])],
    by decide⟩⟩

def rowOptions : Options Rat :=
  ⟨7, 20, false, none, Dict.empty, true, ["B"], none, 0.04, none, 1.0⟩

/-- Draws that always come out lowest. -/
def lowestDraws : Rng Unit Rat := ⟨fun _ => (0, ()), fun _ _ => (0, ()), fun _ _ h => h⟩

def rowTables : Tables :=
  rowCatalogue.items.foldl (fun t kv => Tables.addBlock kv.1 kv.2 t) Tables.empty

def rowWalker : GrammarWalker Rat :=
  ⟨7, rowGrammar, 20, false, 200, Dict.empty,
    allowed rowGrammar rowTables.waypoint ["S", "B", "F"] rowOptions, ["B"], none, 0.04, none, 1.0,
    rowTables.cells, rowTables.waypoint, ["S"], ["F"]⟩

def rowRoute : List Placement :=
  [⟨"S", 24, 9, 24, 0, none⟩, ⟨"B", 24, 9, 25, 0, none⟩, ⟨"F", 24, 9, 26, 0, none⟩]

theorem generate_wellFormed_row :
    WellFormed rowCatalogue ["S", "B", "F"] ["B"] 2 12 rowRoute := by
  have hw : GrammarWalker.init rowCatalogue rowGrammar ["S", "B", "F"] rowOptions =
      .ok rowWalker := by rfl
  have hroute : rowWalker.generate lowestDraws (fun _ => ()) 2 12 100 24 = .ok rowRoute := by
    decide +kernel
  exact generate_wellFormed hw hroute

end TraxMania.Generation.GrammarWalk
