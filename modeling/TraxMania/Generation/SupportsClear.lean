import TraxMania.Generation.ClosedRoute
import TraxMania.Generation.GrammarRoute
import TraxMania.Constraints.OffsetTable
import TraxMania.Lib.Firsts

/-
  Where pillars stand: apart from each other and from the route as the pillar builder sees it, and
  when they also keep clear of the cells that the walker reserved.
-/

namespace TraxMania.Generation.Supports

open TraxMania.Grid TraxMania.Catalogue TraxMania.Constraints Lib Lib.Packing Lib.SortBy

variable {catalogue : Dict String BlockDef} {route : List Placement}

/-! ## What holds for every table -/

/-- The pillars lie apart, and no reserved cell is theirs. -/
structure Clear (catalogue : Dict String BlockDef) (reserved : Cell → Prop)
    (supports : List Placement) : Prop where
  apart : supports.Pairwise (Apart (cellsOf catalogue))
  free : ∀ p ∈ supports, ∀ c ∈ cellsOf catalogue p, ¬ reserved c

/-- The pillars are clear of the cells that the builder takes for the route. -/
theorem buildSupports_clear (catalogue : Dict String BlockDef) (route : List Placement)
    (rules : PillarRules) (groundY : Option Int) :
    Clear catalogue (· ∈ routeCells route catalogue)
      (buildSupports route catalogue rules groundY) := by
  have hsound := sound_pack (cellsOf catalogue) (routeCells route catalogue)
    ((sortBy buildKey route).flatMap
      (pillarsUnder catalogue rules (groundY.getD rules.groundY)))
  exact ⟨hsound.apart, hsound.free⟩

theorem slotPillar_y {p q : Placement} {y : Int} {slot : PillarSlot}
    (h : slotPillar catalogue p y slot = some q) : q.y = y := by
  unfold slotPillar at h
  dsimp only at h
  split at h
  · cases h
  · obtain rfl := Option.some.inj h
    rfl

theorem mem_range {lo hi y : Int} (h : y ∈ range lo hi) : lo ≤ y ∧ y < hi := by
  obtain ⟨i, hi', rfl⟩ := List.mem_map.mp h
  rw [List.mem_range] at hi'
  omega

/-- A level that some block of the route stands above. -/
def BelowDeck (catalogue : Dict String BlockDef) (route : List Placement) (y : Int) : Prop :=
  ∃ p ∈ route, ∃ base, baseY catalogue p = some base ∧ y < base

theorem mem_pillarsUnder {rules : PillarRules} {ground : Int} {p q : Placement}
    (h : q ∈ pillarsUnder catalogue rules ground p) :
    ∃ base, baseY catalogue p = some base ∧ q.y < base := by
  unfold pillarsUnder at h
  split at h
  · cases h
  next base hbase =>
  split at h
  · cases h
  split at h
  · cases h
  split at h
  · obtain ⟨y, hy, hq⟩ := List.mem_flatMap.mp h
    obtain ⟨slot, -, hslot⟩ := List.mem_filterMap.mp hq
    refine ⟨base, hbase, ?_⟩
    rw [slotPillar_y hslot]
    exact (mem_range hy).2
  · cases h

theorem belowDeck_of_mem {rules : PillarRules} {groundY : Option Int} {q : Placement}
    (h : q ∈ buildSupports route catalogue rules groundY) : BelowDeck catalogue route q.y := by
  obtain ⟨p, hp, hq⟩ := List.mem_flatMap.mp ((taken_sublist _).mem h)
  obtain ⟨base, hbase, hlt⟩ := mem_pillarsUnder hq
  exact ⟨p, (mem_sortBy _ _ p).mp hp, base, hbase, hlt⟩

/-! ## A slot for every place -/

theorem least_shift {xs : List Int} (h : xs ≠ []) (k : Int) :
    least (xs.map fun x => x + k) = least xs + k := by
  obtain ⟨m, hm⟩ : ∃ m, xs.min? = some m := by
    rw [← Option.isSome_iff_exists, List.isSome_min?_iff]
    exact h
  have hmin := List.min?_eq_some_iff.mp hm
  have hshift : (xs.map fun x => x + k).min? = some (m + k) := by
    rw [List.min?_eq_some_iff]
    refine ⟨List.mem_map.mpr ⟨m, hmin.1, rfl⟩, ?_⟩
    intro b hb
    obtain ⟨x, hx, rfl⟩ := List.mem_map.mp hb
    have := hmin.2 x hx
    omega
  unfold least
  rw [hm, hshift]
  rfl

theorem footprint_mod (blockId : String) (anchor : Cell) (rotation : Int) :
    footprint catalogue blockId anchor (rotation % 4) =
      footprint catalogue blockId anchor rotation := by
  unfold footprint
  simp only [rotateOffset_mod]

/-- A slot moved by `v` moves its turned cells by the turned `v`. -/
theorem movedCells_shift (p : Placement) (pillar : String) (variant direction dx dz : Int) :
    movedCells catalogue p ⟨dx, dz, pillar, variant, direction⟩ =
      (movedCells catalogue p ⟨0, 0, pillar, variant, direction⟩).map fun c =>
        c + rotateVector ⟨dx, 0, dz⟩ p.rotation := by
  have hcell : ∀ (o size : Cell), rotateOffset ⟨dx + o.x, 0, dz + o.z⟩ p.rotation size =
      rotateOffset ⟨0 + o.x, 0, 0 + o.z⟩ p.rotation size + rotateVector ⟨dx, 0, dz⟩ p.rotation := by
    intro o size
    rw [← rotateOffset_shift]
    congr 1
    exact Cell.ext (by simp; omega) rfl (by simp; omega)
  unfold movedCells footprint
  dsimp only
  split
  · rfl
  split
  · rfl
  · unfold shiftAll
    simp only [List.map_map]
    apply List.map_congr_left
    intro u _
    exact hcell _ _

theorem movedCells_eq_nil {p : Placement} {slot : PillarSlot} :
    movedCells catalogue p slot = [] ↔
      footprint catalogue slot.pillar ⟨slot.dx, 0, slot.dz⟩ slot.direction = [] := by
  unfold movedCells
  rw [List.map_eq_nil_iff]

/-- Whether a footprint is empty does not depend on where the block stands. -/
theorem footprint_ne_nil {blockId : String} {anchor : Cell} {rotation : Int}
    (h : footprint catalogue blockId anchor rotation ≠ []) (anchor' : Cell) (rotation' : Int) :
    footprint catalogue blockId anchor' rotation' ≠ [] := by
  unfold footprint at *
  split at h
  · exact absurd rfl h
  split at h
  · exact absurd rfl h
  · simpa [shiftAll] using h

/-- Some slot puts the block at the anchor and the rotation, under any block of the route. -/
theorem exists_slot (p : Placement) {blockId : String} {anchor : Cell} {rotation : Int}
    (h : footprint catalogue blockId anchor rotation ≠ []) :
    ∃ slot, slotPillar catalogue p anchor.y slot =
      some ⟨blockId, anchor.x, anchor.y, anchor.z, rotation % 4, some 0⟩ := by
  let direction := rotation - p.rotation
  let moved := movedCells catalogue p ⟨0, 0, blockId, 0, direction⟩
  have hmoved : moved ≠ [] := by
    intro hnil
    exact footprint_ne_nil h ⟨0, 0, 0⟩ direction (movedCells_eq_nil.mp hnil)
  -- The slot's offset is what is missing to the anchor, in the frame of the road block.
  let missing : Cell := ⟨anchor.x - p.x - least (moved.map Cell.x), 0,
    anchor.z - p.z - least (moved.map Cell.z)⟩
  let off := localOffset missing p.rotation
  have hoff : rotateVector ⟨off.x, 0, off.z⟩ p.rotation = missing := by
    have hy : off.y = 0 := rotateVector_y missing _
    have heq : (⟨off.x, 0, off.z⟩ : Cell) = off := Cell.ext rfl hy.symm rfl
    rw [heq]
    exact rotateVector_localOffset missing p.rotation
  refine ⟨⟨off.x, off.z, blockId, 0, direction⟩, ?_⟩
  have hshift : movedCells catalogue p ⟨off.x, off.z, blockId, 0, direction⟩ =
      moved.map fun c => c + missing := by
    rw [movedCells_shift, hoff]
  have hx : least ((moved.map fun c => c + missing).map Cell.x) =
      least (moved.map Cell.x) + missing.x := by
    rw [← least_shift (by simpa using hmoved), List.map_map, List.map_map]
    rfl
  have hz : least ((moved.map fun c => c + missing).map Cell.z) =
      least (moved.map Cell.z) + missing.z := by
    rw [← least_shift (by simpa using hmoved), List.map_map, List.map_map]
    rfl
  have hax : p.x + (least (moved.map Cell.x) + missing.x) = anchor.x := by
    show p.x + (least (moved.map Cell.x) + (anchor.x - p.x - least (moved.map Cell.x))) = anchor.x
    omega
  have haz : p.z + (least (moved.map Cell.z) + missing.z) = anchor.z := by
    show p.z + (least (moved.map Cell.z) + (anchor.z - p.z - least (moved.map Cell.z))) = anchor.z
    omega
  unfold slotPillar
  rw [hshift]
  dsimp only
  rw [if_neg (by simpa using hmoved), hx, hz, hax, haz, sub_add_cancel]

/-! ## The cells that the builder does not see -/

/-- No block below the base of a block of the route covers a reserved cell, unless it covers a cell
    that the builder takes for the route. -/
def Guarded (catalogue : Dict String BlockDef) (route : List Placement) (reserved : Cell → Prop) :
    Prop :=
  ∀ blockId anchor rotation, BelowDeck catalogue route anchor.y →
    (∀ c ∈ footprint catalogue blockId anchor rotation, c ∉ routeCells route catalogue) →
    ∀ c ∈ footprint catalogue blockId anchor rotation, ¬ reserved c

theorem guarded_of_subset {reserved : Cell → Prop}
    (h : ∀ c, reserved c → c ∈ routeCells route catalogue) : Guarded catalogue route reserved := by
  intro blockId anchor rotation _ hfree c hc hres
  exact hfree c hc (h c hres)

theorem clear_of_guarded {reserved : Cell → Prop} (h : Guarded catalogue route reserved)
    (rules : PillarRules) (groundY : Option Int) :
    Clear catalogue reserved (buildSupports route catalogue rules groundY) := by
  have hroute := buildSupports_clear catalogue route rules groundY
  refine ⟨hroute.apart, ?_⟩
  intro p hp
  exact h p.blockId p.anchor p.rotation (belowDeck_of_mem hp) (hroute.free p hp)

theorem range_cons {lo hi : Int} (h : lo < hi) : ∃ rest, range lo hi = lo :: rest := by
  obtain ⟨n, hn⟩ : ∃ n, (hi - lo).toNat = n + 1 := ⟨(hi - lo).toNat - 1, by omega⟩
  unfold range
  rw [hn, List.range_succ_eq_map, List.map_cons]
  refine ⟨_, congrArg (· :: _) ?_⟩
  show lo + ((0 : Nat) : Int) = lo
  omega

/-- The table with one slot under one block. -/
def oneSlot (blockId : String) (slot : PillarSlot) (groundY : Int) : PillarRules :=
  ⟨⟨[(blockId, ⟨[slot], true⟩)], List.nodup_singleton _⟩, groundY⟩

theorem oneSlot_get? (blockId : String) (slot : PillarSlot) (y : Int) :
    (oneSlot blockId slot y).rules.get? blockId = some ⟨[slot], true⟩ :=
  Dict.get?_eq_some (List.mem_singleton.mpr rfl)

theorem oneSlot_get?_ne {b blockId : String} (h : b ≠ blockId) (slot : PillarSlot) (y : Int) :
    (oneSlot blockId slot y).rules.get? b = none := by
  unfold oneSlot Dict.get?
  dsimp only
  rw [List.lookup_cons, beq_false_of_ne h]
  rfl

/-- The block stands above `y` and has the id. -/
def Asks (catalogue : Dict String BlockDef) (blockId : String) (y : Int) (p : Placement) : Prop :=
  p.blockId = blockId ∧ ∃ base, baseY catalogue p = some base ∧ y < base

theorem pillarsUnder_oneSlot {p q : Placement} {blockId : String} {slot : PillarSlot} {y : Int}
    (h : Asks catalogue blockId y p) (hslot : slotPillar catalogue p y slot = some q) :
    ∃ more, pillarsUnder catalogue (oneSlot blockId slot y) y p = q :: more := by
  obtain ⟨rfl, base, hbase, hlt⟩ := h
  obtain ⟨rest, hrest⟩ := range_cons hlt
  refine ⟨rest.flatMap fun y => [slot].filterMap (slotPillar catalogue p y), ?_⟩
  unfold pillarsUnder
  rw [hbase]
  dsimp only
  rw [if_neg (by omega), oneSlot_get?]
  dsimp only
  rw [if_pos rfl, hrest, List.flatMap_cons, List.filterMap_cons_some hslot]
  rfl

theorem pillarsUnder_other {p : Placement} {blockId : String} {slot : PillarSlot} {y : Int}
    (h : ¬ Asks catalogue blockId y p) :
    pillarsUnder catalogue (oneSlot blockId slot y) y p = [] := by
  unfold pillarsUnder
  split
  · rfl
  next base hbase =>
  split
  · rfl
  next hlt =>
  have hne : p.blockId ≠ blockId := fun hid => h ⟨hid, base, hbase, by omega⟩
  rw [oneSlot_get?_ne hne]

/-- A block that fits below the deck is built by some table. -/
theorem exists_table {blockId : String} {anchor : Cell} {rotation : Int}
    (hdeck : BelowDeck catalogue route anchor.y)
    (hcells : footprint catalogue blockId anchor rotation ≠ [])
    (hfree : ∀ c ∈ footprint catalogue blockId anchor rotation, c ∉ routeCells route catalogue) :
    ∃ rules, ∃ q ∈ buildSupports route catalogue rules none,
      cellsOf catalogue q = footprint catalogue blockId anchor rotation := by
  obtain ⟨d, hd, base, hbase, hlt⟩ := hdeck
  -- The first block that the table has a rule for asks for the first pillar of all.
  obtain ⟨pre, p, post, hsorted, hp, hpre⟩ :=
    exists_first (P := Asks catalogue d.blockId anchor.y)
      ⟨d, (mem_sortBy buildKey route d).mpr hd, rfl, base, hbase, hlt⟩
  obtain ⟨slot, hslot⟩ := exists_slot p hcells
  let q : Placement := ⟨blockId, anchor.x, anchor.y, anchor.z, rotation % 4, some 0⟩
  have hq : cellsOf catalogue q = footprint catalogue blockId anchor rotation :=
    footprint_mod blockId anchor rotation
  refine ⟨oneSlot d.blockId slot anchor.y, q, ?_, hq⟩
  obtain ⟨more, hmore⟩ := pillarsUnder_oneSlot hp hslot
  have hnone : pre.flatMap (pillarsUnder catalogue (oneSlot d.blockId slot anchor.y) anchor.y) =
      [] := by
    rw [List.flatMap_eq_nil_iff]
    exact fun z hz => pillarsUnder_other (hpre z hz)
  unfold buildSupports
  show q ∈ (pack _ _ ((sortBy buildKey route).flatMap
    (pillarsUnder catalogue (oneSlot d.blockId slot anchor.y) anchor.y))).taken
  rw [hsorted, List.flatMap_append, hnone, List.nil_append, List.flatMap_cons, hmore]
  apply first_taken
  · rw [hq]
    exact hcells
  · rw [hq]
    exact hfree

/-- The pillars of every table are clear of the reserved cells exactly when these are guarded. -/
theorem clear_iff_guarded {reserved : Cell → Prop} :
    (∀ rules groundY, Clear catalogue reserved (buildSupports route catalogue rules groundY)) ↔
      Guarded catalogue route reserved := by
  constructor
  · intro h blockId anchor rotation hdeck hfree c hc
    obtain ⟨rules, q, hq, hcells⟩ := exists_table hdeck (List.ne_nil_of_mem hc) hfree
    exact (h rules none).free q hq c (by rwa [hcells])
  · exact clear_of_guarded

/-! ## Routes of the two walkers -/

universe u v

inductive Walker where
  | grammar
  | clip
deriving DecidableEq

/-- Every block is stored under its own id, as the loader stores it. -/
def Keyed (catalogue : Dict String BlockDef) : Prop := ∀ kv ∈ catalogue.items, kv.2.blockId = kv.1

/-- A route that a walker returns, and the cells that it reserved: the grammar walker those of the
    variant for the height of the anchor, the clip walker those of the legs. -/
inductive Returned (catalogue : Dict String BlockDef) :
    Walker → List Placement → (Cell → Prop) → Prop
  | grammar {F : Type u} {ρ : Type v} [Zero F] [Add F] [Mul F] [Div F] [LE F] [DecidableLE F] [BEq F]
      [IntCast F] [OfScientific F] {R : Draw.Rng ρ F} {moves : PlacementGrammar}
      {pool : List String} {o : GrammarWalk.Options F} {w : GrammarWalk.GrammarWalker F}
      {seeded : String → ρ} {length checkpointEvery maxExpansions total : Int}
      {route : List Placement}
      (hw : GrammarWalk.GrammarWalker.init catalogue moves pool o = .ok w)
      (h : w.generate R seeded length checkpointEvery maxExpansions total = .ok route) :
      Returned catalogue .grammar route fun c => ∃ p ∈ route, c ∈ GrammarWalk.footprint catalogue p
  | clip {F : Type u} {ρ : Type v} [Zero F] [Add F] [Mul F] [LE F] [DecidableLE F] [IntCast F]
      [OfScientific F] {R : Draw.Rng ρ F} {allowedIds : List String} {routeClips : Finset String}
      {priors : Option FacePriors} {bias : Dict String F} {w : ClipWalker F}
      {length checkpointEvery maxExpansions : Int} {r : ρ} {legs : List Leg}
      (hw : ClipWalker.init catalogue allowedIds routeClips priors bias = .ok w)
      (h : w.generate R length checkpointEvery maxExpansions r = .ok (legs.map Leg.placement))
      (hlegs : Closed catalogue allowedIds routeClips legs) :
      Returned catalogue .clip (legs.map Leg.placement) fun c => ∃ l ∈ legs, c ∈ l.footprint

/-- The cells of a leg are those that the builder computes for its placement. -/
theorem cellsOf_leg (hkeyed : Keyed catalogue) {allowedIds : List String}
    {routeClips : Finset String} {l : Leg}
    (h : FromCatalogue catalogue allowedIds routeClips l.block) :
    cellsOf catalogue l.placement = l.footprint := by
  obtain ⟨id, -, block, hblock, ho⟩ := h
  have hid : block.blockId = id := hkeyed _ (Dict.mem_items_of_get? hblock)
  unfold orientations at ho
  split at ho
  · cases ho
  next variant hvariant =>
  dsimp only at ho
  split at ho
  · cases ho
  obtain ⟨rotation, -, ho⟩ := List.mem_map.mp ho
  have hget : catalogue.get? l.block.blockId = some block := by
    rw [← ho]
    show catalogue.get? block.blockId = some block
    rw [hid, hblock]
  unfold cellsOf footprint Leg.placement Leg.footprint
  rw [Placement.blockId_ofAnchor, hget]
  dsimp only
  rw [hvariant, ← ho]
  rfl

/-- The builder sees every cell that the clip walker reserved. -/
theorem clip_subset (hkeyed : Keyed catalogue) {allowedIds : List String}
    {routeClips : Finset String} {legs : List Leg}
    (hlegs : Closed catalogue allowedIds routeClips legs) {c : Cell}
    (hc : ∃ l ∈ legs, c ∈ l.footprint) : c ∈ routeCells (legs.map Leg.placement) catalogue := by
  obtain ⟨l, hl, hc⟩ := hc
  unfold routeCells
  rw [List.mem_toFinset, List.mem_flatMap]
  refine ⟨l.placement, List.mem_map.mpr ⟨l, hl, rfl⟩, ?_⟩
  rwa [cellsOf_leg hkeyed (hlegs.catalogued l hl)]

/-- Pillars never stand in a route of the clip walker; they never stand in one of the grammar
    walker if and only if its reserved cells are guarded. -/
theorem supports_clear_iff (hkeyed : Keyed catalogue) {walker : Walker} {reserved : Cell → Prop}
    (h : Returned catalogue walker route reserved) :
    (∀ rules groundY, Clear catalogue reserved (buildSupports route catalogue rules groundY)) ↔
      (walker = .grammar → Guarded catalogue route reserved) := by
  rw [clear_iff_guarded]
  cases h with
  | grammar hw h =>
    constructor
    · exact fun hguarded _ => hguarded
    · exact fun hguarded => hguarded rfl
  | clip hw h hlegs =>
    refine iff_of_true (guarded_of_subset fun c hc => clip_subset hkeyed hlegs hc) ?_
    intro hwalker
    cases hwalker

theorem supports_clear_iff_row :
    Keyed GrammarWalk.rowCatalogue ∧
      ∀ rules groundY, Clear GrammarWalk.rowCatalogue
        (fun c => ∃ p ∈ GrammarWalk.rowRoute, c ∈ GrammarWalk.footprint GrammarWalk.rowCatalogue p)
        (buildSupports GrammarWalk.rowRoute GrammarWalk.rowCatalogue rules groundY) := by
  have hkeyed : Keyed GrammarWalk.rowCatalogue := by
    unfold Keyed
    decide
  have hw : GrammarWalk.GrammarWalker.init GrammarWalk.rowCatalogue GrammarWalk.rowGrammar
      ["S", "B", "F"] GrammarWalk.rowOptions = .ok GrammarWalk.rowWalker := by rfl
  have hroute : GrammarWalk.rowWalker.generate GrammarWalk.lowestDraws (fun _ => ()) 2 12 100 24 =
      .ok GrammarWalk.rowRoute := by
    decide +kernel
  have hseen : ∀ p ∈ GrammarWalk.rowRoute, ∀ c ∈ GrammarWalk.footprint GrammarWalk.rowCatalogue p,
      c ∈ routeCells GrammarWalk.rowRoute GrammarWalk.rowCatalogue := by
    decide +kernel
  refine ⟨hkeyed, (supports_clear_iff hkeyed (.grammar hw hroute)).mpr fun _ => ?_⟩
  apply guarded_of_subset
  rintro c ⟨p, hp, hc⟩
  exact hseen p hp c hc

/-! ## A bridge whose air variant fills the cell under its deck -/

def bridge : BlockDef :=
  ⟨"F", "Finish", [⟨"ground", 0, ⟨1, 2, 1⟩, [⟨⟨0, 1, 0⟩, Dict.empty⟩]⟩,
    ⟨"air", 0, ⟨1, 2, 1⟩, [⟨⟨0, 0, 0⟩, Dict.empty⟩, ⟨⟨0, 1, 0⟩, Dict.empty⟩]⟩]⟩

/-- A start two cells high. -/
def tower : BlockDef :=
  ⟨"S", "Start",
    [⟨"ground", 0, ⟨1, 2, 1⟩, [⟨⟨0, 0, 0⟩, Dict.empty⟩, ⟨⟨0, 1, 0⟩, Dict.empty⟩]⟩]⟩

def bridgeCatalogue : Dict String BlockDef :=
  ⟨[("S", tower), ("F", bridge), ("P", GrammarWalk.cube "P" "None")], by decide⟩

def bridgeGrammar : PlacementGrammar :=
  ⟨⟨[("S", [⟨"F", ⟨0, 1, 1⟩, 0, 30, 30, true⟩])], by decide⟩⟩

def bridgeOptions : GrammarWalk.Options Rat :=
  ⟨7, 20, false, none, Dict.empty, false, [], none, 0.04, none, 1.0⟩

def bridgeRoute : List Placement := [⟨"S", 24, 9, 24, 0, none⟩, ⟨"F", 24, 10, 25, 0, none⟩]

def bridgeRules : PillarRules := oneSlot "F" ⟨0, 0, "P", 0, 0⟩ 9

/-- The pillar at `(24, 10, 25)` stands in a cell that the walker reserved for the bridge. -/
theorem pillar_in_bridge :
    Keyed bridgeCatalogue ∧
      Returned.{0, 0} bridgeCatalogue .grammar bridgeRoute
        (fun c => ∃ p ∈ bridgeRoute, c ∈ GrammarWalk.footprint bridgeCatalogue p) ∧
      ¬ Clear bridgeCatalogue
        (fun c => ∃ p ∈ bridgeRoute, c ∈ GrammarWalk.footprint bridgeCatalogue p)
        (buildSupports bridgeRoute bridgeCatalogue bridgeRules none) := by
  have hkeyed : Keyed bridgeCatalogue := by
    unfold Keyed
    decide
  obtain ⟨w, hw, hroute⟩ : ∃ w, GrammarWalk.GrammarWalker.init bridgeCatalogue bridgeGrammar
      ["S", "F"] bridgeOptions = .ok w ∧
      w.generate GrammarWalk.lowestDraws (fun _ => ()) 1 12 100 24 = .ok bridgeRoute := by
    refine ⟨_, rfl, ?_⟩
    decide +kernel
  have hpillar : (⟨"P", 24, 10, 25, 0, some 0⟩ : Placement) ∈
      buildSupports bridgeRoute bridgeCatalogue bridgeRules none := by
    decide +kernel
  have hcell : (⟨24, 10, 25⟩ : Cell) ∈ cellsOf bridgeCatalogue ⟨"P", 24, 10, 25, 0, some 0⟩ := by
    decide +kernel
  have hreserved : (⟨24, 10, 25⟩ : Cell) ∈
      GrammarWalk.footprint bridgeCatalogue ⟨"F", 24, 10, 25, 0, none⟩ := by
    decide +kernel
  refine ⟨hkeyed, .grammar hw hroute, fun hclear => ?_⟩
  exact hclear.free _ hpillar _ hcell ⟨_, by simp [bridgeRoute], hreserved⟩

end TraxMania.Generation.Supports
