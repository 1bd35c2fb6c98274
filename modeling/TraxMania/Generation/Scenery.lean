import Mathlib.Data.Finset.Sort
import Mathlib.Data.Finset.Union
import TraxMania.Generation.RouteTypes
import TraxMania.Generation.Placement
import TraxMania.Lib.Draw

/-
  Scenery around a route: a sample of the columns near it, an item in each. It keeps off the route,
  and it keeps out of the pillars of the route where these stand in no column that is free for it.
-/

namespace TraxMania.Generation.Scenery

open TraxMania.Grid TraxMania.Catalogue Route Supports Lib Lib.Draw

/-! ## Columns -/

/-- A cell as seen from above. -/
structure Column where
  x : Int
  z : Int
deriving DecidableEq

/-- The order of the tuples `(x, z)`. -/
def Column.key (c : Column) : Int ×ₗ Int := toLex (c.x, c.z)

theorem Column.key_injective : Function.Injective Column.key := by
  intro a b h
  have hpair : (a.x, a.z) = (b.x, b.z) := toLex.injective h
  cases a
  cases b
  simpa using hpair

instance Column.linearOrder : LinearOrder Column := LinearOrder.lift' Column.key Column.key_injective

/-- The column of a cell. -/
def columnOf (c : Cell) : Column := ⟨c.x, c.z⟩

/-- `occupied`: the columns of the route, at any height. -/
def routeColumns (placements : List Placement) (catalogue : Dict String BlockDef) : Finset Column :=
  (routeCells placements catalogue).image columnOf

/-- The offsets `(dx, dz)` of the two loops. -/
def square (near : Int) : List Column :=
  (range (-near) (near + 1)).flatMap fun dx => (range (-near) (near + 1)).map fun dz => ⟨dx, dz⟩

/-- `_free_cells`. -/
def freeCells (occupied : Finset Column) (gridMin gridMax near : Int) : List Column :=
  ((occupied.biUnion fun c =>
    ((square near).map fun d => (⟨c.x + d.x, c.z + d.z⟩ : Column)).toFinset).filter fun c =>
      c ∉ occupied ∧ (gridMin ≤ c.x ∧ c.x < gridMax) ∧ gridMin ≤ c.z ∧ c.z < gridMax).sort

/-! ## Items -/

/-- `CELL_X`. -/
def cellX : ℚ := 32

/-- `CELL_Y`. -/
def cellY : ℚ := 8

/-- `CELL_Z`. -/
def cellZ : ℚ := 32

/-- `GROUND_ITEM_Y`. -/
def groundItemY : ℚ := 8

/-- `PALETTES`. -/
def palettes : Dict String (List String) :=
  ⟨[("spring", ["SpringTreeTall", "SpringTreeBig", "SpringTreeMedium", "CherryTreeMedium",
      "SpringCherryTree"]),
    ("summer", ["PalmTreeMedium", "SpringTreeBig", "SpringTreeMedium"]),
    ("conifer", ["FirMedium", "CypressTall", "TreePineBig"]),
    ("desert", ["CactusMedium", "PalmTreeMedium"]),
    ("mixed", ["SpringTreeTall", "CherryTreeMedium", "FirMedium", "CypressTall", "SpringTreeBig"]),
    ("forest", ["Forest", "Grove", "Bush"]),
    ("palmforest", ["PalmForest", "PalmGrove", "SummerPalmTree"]),
    ("seasons-spring", ["Spring", "SpringCherryTree", "Bush"]),
    ("seasons-summer", ["Summer", "Grove", "Bush"]),
    ("seasons-fall", ["Fall", "Grove", "Bush"]),
    ("seasons-winter", ["Winter", "WinterFrozenTree", "SnowBarrier"]),
    ("lights", ["LightTubeBig4m", "LightCube2m"]),
    ("barriers", ["TrackBarrier4m", "RallyBarrier"])], by decide⟩

structure Item where
  name : String
  x : ℚ
  y : ℚ
  z : ℚ
  yaw : ℚ
deriving DecidableEq

inductive SceneryError where
  /-- `unknown palette …; available: …`. -/
  | unknownPalette (palette : String) (available : List String)
  /-- A choice from an empty palette. -/
  | indexError
deriving DecidableEq

/-- `round(v, 3)`. -/
def roundTo3 (v : ℚ) : ℚ := roundHalfEven (v * 1000) / 1000

section Build

variable {ρ : Type}

/-- The body of `for cx, cz in chosen`. -/
def drawItem (R : Sampler ρ) (models : List String) (groundY : Int) (c : Column) (r : ρ) :
    Except SceneryError (Item × ρ) :=
  let (jitterX, r) := R.uniform 0.2 0.8 r
  let (jitterZ, r) := R.uniform 0.2 0.8 r
  let y := groundItemY + (groundY - Generation.groundY) * cellY
  match Draw.choice R.toRng models r with
  | (none, _) => .error .indexError
  | (some name, r) =>
    let (yaw, r) := R.uniform 0.0 6.283 r
    .ok (⟨name, roundTo3 ((c.x + jitterX) * cellX), roundTo3 y, roundTo3 ((c.z + jitterZ) * cellZ),
      roundTo3 yaw⟩, r)

/-- `for cx, cz in chosen`. -/
def drawItems (R : Sampler ρ) (models : List String) (groundY : Int) :
    List Column → ρ → Except SceneryError (List Item)
  | [], _ => .ok []
  | c :: chosen, r => do
    let (item, r) ← drawItem R models groundY c r
    let items ← drawItems R models groundY chosen r
    return item :: items

/-- `take`. -/
def takeOf (candidates : List Column) (density : ℚ) : Nat :=
  (candidates.length * max 0 (min 1 density) : ℚ).floor.toNat

/-- `build_scenery`. -/
def buildScenery (R : Sampler ρ) (placements : List Placement) (catalogue : Dict String BlockDef)
    (seed : Int) (palette : String) (density : ℚ) (near gridMin gridMax groundY : Int) :
    Except SceneryError (List Item) :=
  match palettes.get? palette with
  | none => .error (.unknownPalette palette (Lib.SortBy.sortBy id palettes.keys))
  | some models =>
    let r := R.seeded seed
    let occupied := routeColumns placements catalogue
    let candidates := freeCells occupied gridMin gridMax near
    let take := takeOf candidates density
    let (chosen, r) := if take ≠ 0 then R.sample candidates take r else ([], r)
    drawItems R models groundY chosen r

end Build

/-! ## The free columns -/

theorem mem_range_iff {lo hi y : Int} : y ∈ range lo hi ↔ lo ≤ y ∧ y < hi := by
  unfold range
  rw [List.mem_map]
  constructor
  · intro ⟨i, hi', h⟩
    rw [List.mem_range] at hi'
    omega
  · intro h
    exact ⟨(y - lo).toNat, List.mem_range.mpr (by omega), by omega⟩

theorem mem_square {near : Int} {d : Column} : d ∈ square near ↔ |d.x| ≤ near ∧ |d.z| ≤ near := by
  have hmem : d ∈ square near ↔
      (-near ≤ d.x ∧ d.x < near + 1) ∧ -near ≤ d.z ∧ d.z < near + 1 := by
    unfold square
    simp only [List.mem_flatMap, List.mem_map, mem_range_iff]
    constructor
    · intro ⟨dx, hx, dz, hz, h⟩
      subst h
      exact ⟨hx, hz⟩
    · intro ⟨hx, hz⟩
      exact ⟨d.x, hx, d.z, hz, rfl⟩
  rw [hmem, abs_le, abs_le]
  omega

/-- A column in the grid, off the route and within `near` columns of it. -/
structure Free (occupied : Finset Column) (gridMin gridMax near : Int) (c : Column) : Prop where
  off : c ∉ occupied
  inX : gridMin ≤ c.x ∧ c.x < gridMax
  inZ : gridMin ≤ c.z ∧ c.z < gridMax
  close : ∃ o ∈ occupied, |c.x - o.x| ≤ near ∧ |c.z - o.z| ≤ near

theorem mem_freeCells {occupied : Finset Column} {gridMin gridMax near : Int} {c : Column} :
    c ∈ freeCells occupied gridMin gridMax near ↔ Free occupied gridMin gridMax near c := by
  have hband : (∃ o ∈ occupied, c ∈ ((square near).map fun d =>
      (⟨o.x + d.x, o.z + d.z⟩ : Column)).toFinset) ↔
        ∃ o ∈ occupied, |c.x - o.x| ≤ near ∧ |c.z - o.z| ≤ near := by
    refine exists_congr fun o => and_congr_right fun _ => ?_
    rw [List.mem_toFinset, List.mem_map]
    constructor
    · intro ⟨d, hd, h⟩
      have hmem := mem_square.mp hd
      subst h
      simpa using hmem
    · intro h
      refine ⟨⟨c.x - o.x, c.z - o.z⟩, mem_square.mpr h, ?_⟩
      simp
  unfold freeCells
  rw [Finset.mem_sort, Finset.mem_filter, Finset.mem_biUnion, hband]
  constructor
  · intro ⟨hclose, hoff, hx, hz⟩
    exact ⟨hoff, hx, hz, hclose⟩
  · intro h
    exact ⟨h.close, h.off, h.inX, h.inZ⟩

theorem freeCells_nodup (occupied : Finset Column) (gridMin gridMax near : Int) :
    (freeCells occupied gridMin gridMax near).Nodup :=
  Finset.sort_nodup _ _

theorem takeOf_le (candidates : List Column) (density : ℚ) :
    takeOf candidates density ≤ candidates.length := by
  have hone : max 0 (min 1 density) ≤ 1 := max_le zero_le_one (min_le_left 1 density)
  have hmul : (candidates.length * max 0 (min 1 density) : ℚ) ≤ candidates.length :=
    mul_le_of_le_one_right (Nat.cast_nonneg _) hone
  have hfloor : ((candidates.length * max 0 (min 1 density) : ℚ).floor : ℚ) ≤
      candidates.length := (Rat.floor_le _).trans hmul
  have hint : (candidates.length * max 0 (min 1 density) : ℚ).floor ≤ candidates.length := by
    exact_mod_cast hfloor
  unfold takeOf
  omega

/-! ## The column of an item -/

/-- Its `x` and `z` divided by the width of a cell. -/
def Item.column (i : Item) : Column := ⟨(i.x / cellX).floor, (i.z / cellZ).floor⟩

theorem roundHalfEven_close (v : ℚ) :
    v - 1 / 2 ≤ roundHalfEven v ∧ roundHalfEven v ≤ v + 1 / 2 := by
  have hlow := Rat.floor_le v
  have hhigh := Rat.lt_floor_add_one v
  push_cast at hhigh
  unfold roundHalfEven
  dsimp only
  split
  · constructor <;> linarith
  · split
    · push_cast
      constructor <;> linarith
    · split
      · constructor <;> linarith
      · push_cast
        constructor <;> linarith

/-- The jitter and the rounding stay inside the column. -/
theorem floor_jitter (c : Int) {u : ℚ} (hlow : 0.2 ≤ u) (hhigh : u ≤ 0.8) :
    (roundTo3 ((c + u) * 32) / 32).floor = c := by
  obtain ⟨hdown, hup⟩ := roundHalfEven_close ((c + u) * 32 * 1000)
  unfold roundTo3
  have hge : (c : ℚ) ≤ roundHalfEven ((c + u) * 32 * 1000) / 1000 / 32 := by
    norm_num at hlow hhigh ⊢
    linarith
  have hlt : roundHalfEven ((c + u) * 32 * 1000) / 1000 / 32 < ((c + 1 : Int) : ℚ) := by
    norm_num at hlow hhigh ⊢
    linarith
  have hle := Rat.le_floor_iff.mpr hge
  have hlt' := Rat.floor_lt_iff.mpr hlt
  omega

section Draws

variable {ρ : Type}

/-- Every item can be drawn, and it stands in its column. -/
theorem drawItem_ok (R : Sampler ρ) {models : List String} (hmodels : models ≠ []) (groundY : Int)
    (c : Column) (r : ρ) :
    ∃ item r', drawItem R models groundY c r = .ok (item, r') ∧ item.column = c := by
  have hwidth : (0.2 : ℚ) ≤ 0.8 := by norm_num
  obtain ⟨jitterX, r₁, hdrawX⟩ : ∃ u r', R.uniform 0.2 0.8 r = (u, r') := ⟨_, _, rfl⟩
  obtain ⟨jitterZ, r₂, hdrawZ⟩ : ∃ u r', R.uniform 0.2 0.8 r₁ = (u, r') := ⟨_, _, rfl⟩
  have hx := R.uniform_mem hwidth r
  have hz := R.uniform_mem hwidth r₁
  rw [hdrawX] at hx
  rw [hdrawZ] at hz
  obtain ⟨name, r₃, hname⟩ : ∃ name r', Draw.choice R.toRng models r₂ = (some name, r') := by
    have hlt := R.below_lt models.length r₂ (List.length_pos_iff.mpr hmodels)
    refine ⟨models[(R.below models.length r₂).1], (R.below models.length r₂).2, ?_⟩
    unfold Draw.choice
    dsimp only
    rw [List.getElem?_eq_getElem hlt]
  unfold drawItem
  rw [hdrawX]
  dsimp only
  rw [hdrawZ]
  dsimp only
  rw [hname]
  refine ⟨_, _, rfl, ?_⟩
  unfold Item.column cellX cellZ
  dsimp only
  rw [floor_jitter c.x hx.1 hx.2, floor_jitter c.z hz.1 hz.2]

/-- One item for each column, in their order. -/
theorem drawItems_ok (R : Sampler ρ) {models : List String} (hmodels : models ≠ []) (groundY : Int)
    (chosen : List Column) (r : ρ) :
    ∃ items, drawItems R models groundY chosen r = .ok items ∧
      items.map Item.column = chosen := by
  induction chosen generalizing r with
  | nil => exact ⟨[], rfl, rfl⟩
  | cons c chosen ih =>
    obtain ⟨item, r', hitem, hcolumn⟩ := drawItem_ok R hmodels groundY c r
    obtain ⟨items, hitems, hcolumns⟩ := ih r'
    refine ⟨item :: items, ?_, ?_⟩
    · unfold drawItems
      rw [hitem]
      show (drawItems R models groundY chosen r' >>= fun items => .ok (item :: items)) = _
      rw [hitems]
      rfl
    · rw [List.map_cons, hcolumn, hcolumns]

theorem models_ne_nil {palette : String} {models : List String}
    (h : palettes.get? palette = some models) : models ≠ [] := by
  have hall : ∀ kv ∈ palettes.items, kv.2 ≠ [] := by
    unfold palettes
    decide
  exact hall _ (Dict.mem_items_of_get? h)

/-- `chosen`: the columns that the sample of a seed takes. -/
def chosenColumns (R : Sampler ρ) (candidates : List Column) (density : ℚ) (seed : Int) :
    List Column :=
  (R.sample candidates (takeOf candidates density) (R.seeded seed)).1

theorem sample_zero (R : Sampler ρ) (candidates : List Column) (r : ρ) :
    (R.sample candidates 0 r).1 = [] := by
  have hlength := R.places_length candidates.length 0 r (Nat.zero_le _)
  have hnil := List.length_eq_zero_iff.mp hlength
  unfold Sampler.sample
  dsimp only
  rw [hnil, List.filterMap_nil]

/-- At full density every candidate is chosen. -/
theorem mem_chosen_of_full {R : Sampler ρ} {candidates : List Column} {density : ℚ} {seed : Int}
    {c : Column} (hfull : 1 ≤ density) (hc : c ∈ candidates) :
    c ∈ chosenColumns R candidates density seed := by
  have htake : takeOf candidates density = candidates.length := by
    unfold takeOf
    rw [min_eq_left hfull, max_eq_right zero_le_one, mul_one]
    have hfloor : (candidates.length : ℚ).floor = candidates.length :=
      Rat.floor_intCast candidates.length
    rw [hfloor]
    exact Int.toNat_natCast _
  unfold chosenColumns
  rw [htake]
  exact Sampler.mem_sample_all hc

/-- A known palette gives one item for each chosen column. -/
theorem buildScenery_known (R : Sampler ρ) (placements : List Placement)
    (catalogue : Dict String BlockDef) (seed : Int) {palette : String} (density : ℚ)
    (near gridMin gridMax groundY : Int) {models : List String}
    (hpalette : palettes.get? palette = some models) :
    ∃ items, buildScenery R placements catalogue seed palette density near gridMin gridMax groundY =
        .ok items ∧
      items.map Item.column = chosenColumns R
        (freeCells (routeColumns placements catalogue) gridMin gridMax near) density seed := by
  have hmodels := models_ne_nil hpalette
  unfold buildScenery chosenColumns
  rw [hpalette]
  dsimp only
  split
  · exact drawItems_ok R hmodels groundY _ _
  · rename_i htake
    rw [not_not.mp htake, sample_zero]
    exact drawItems_ok R hmodels groundY [] _

end Draws

/-! ## Off the road and out of the pillars -/

/-- A column with a cell of a pillar that `build_supports` returns. -/
def PillarColumn (placements : List Placement) (catalogue : Dict String BlockDef)
    (rules : PillarRules) (supportsY : Option Int) (c : Column) : Prop :=
  ∃ p ∈ buildSupports placements catalogue rules supportsY, ∃ cell ∈ cellsOf catalogue p,
    columnOf cell = c

/-- Where scenery belongs. -/
structure OffRoad (placements : List Placement) (catalogue : Dict String BlockDef)
    (rules : PillarRules) (supportsY : Option Int) (near gridMin gridMax : Int)
    (items : List Item) : Prop where
  inGrid : ∀ i ∈ items, (gridMin ≤ i.column.x ∧ i.column.x < gridMax) ∧
    gridMin ≤ i.column.z ∧ i.column.z < gridMax
  offRoute : ∀ i ∈ items, ∀ p ∈ placements, ∀ cell ∈ cellsOf catalogue p,
    columnOf cell ≠ i.column
  offPillars : ∀ i ∈ items, ¬PillarColumn placements catalogue rules supportsY i.column
  nearRoute : ∀ i ∈ items, ∃ p ∈ placements, ∃ cell ∈ cellsOf catalogue p,
    |i.column.x - cell.x| ≤ near ∧ |i.column.z - cell.z| ≤ near
  apart : items.Pairwise fun a b => a.column ≠ b.column

theorem mem_routeColumns {placements : List Placement} {catalogue : Dict String BlockDef}
    {c : Column} : c ∈ routeColumns placements catalogue ↔
      ∃ p ∈ placements, ∃ cell ∈ cellsOf catalogue p, columnOf cell = c := by
  unfold routeColumns routeCells
  rw [Finset.mem_image]
  simp only [List.mem_toFinset, List.mem_flatMap]
  constructor
  · intro ⟨cell, ⟨p, hp, hcell⟩, h⟩
    exact ⟨p, hp, cell, hcell, h⟩
  · intro ⟨p, hp, cell, hcell, h⟩
    exact ⟨cell, ⟨p, hp, hcell⟩, h⟩

section Exact

variable {ρ : Type} {placements : List Placement} {catalogue : Dict String BlockDef}
  {rules : PillarRules} {supportsY : Option Int} {near gridMin gridMax : Int}

variable (rules supportsY) in
/-- All but the pillars hold of every run; the pillars hold where no chosen column has one. -/
theorem offRoad_iff_chosen {items : List Item} {chosen : List Column} (hnodup : chosen.Nodup)
    (hfree : ∀ c ∈ chosen,
      Free (routeColumns placements catalogue) gridMin gridMax near c)
    (hitems : items.map Item.column = chosen) :
    OffRoad placements catalogue rules supportsY near gridMin gridMax items ↔
      ∀ c ∈ chosen, ¬PillarColumn placements catalogue rules supportsY c := by
  have hitem : ∀ i ∈ items,
      Free (routeColumns placements catalogue) gridMin gridMax near i.column := by
    intro i hi
    refine hfree i.column ?_
    rw [← hitems]
    exact List.mem_map_of_mem hi
  constructor
  · intro h c hc
    rw [← hitems, List.mem_map] at hc
    obtain ⟨i, hi, rfl⟩ := hc
    exact h.offPillars i hi
  · intro h
    refine ⟨fun i hi => ⟨(hitem i hi).inX, (hitem i hi).inZ⟩, ?_, ?_, ?_, ?_⟩
    · intro i hi p hp cell hcell heq
      exact (hitem i hi).off (mem_routeColumns.mpr ⟨p, hp, cell, hcell, heq⟩)
    · intro i hi
      refine h i.column ?_
      rw [← hitems]
      exact List.mem_map_of_mem hi
    · intro i hi
      obtain ⟨o, ho, hclose⟩ := (hitem i hi).close
      obtain ⟨p, hp, cell, hcell, rfl⟩ := mem_routeColumns.mp ho
      exact ⟨p, hp, cell, hcell, hclose⟩
    · rw [← hitems] at hnodup
      exact List.pairwise_map.mp hnodup

theorem free_of_mem_chosen {R : Sampler ρ} {density : ℚ} {seed : Int} {c : Column}
    (h : c ∈ chosenColumns R (freeCells (routeColumns placements catalogue) gridMin gridMax near)
      density seed) : Free (routeColumns placements catalogue) gridMin gridMax near c :=
  mem_freeCells.mp (Sampler.mem_of_mem_sample h)

/-- One run: the draws of the seed decide. -/
theorem run_offRoad_iff (R : Sampler ρ) (seed : Int) (palette : String) (density : ℚ)
    (groundY : Int) :
    (∀ items, buildScenery R placements catalogue seed palette density near gridMin gridMax
        groundY = .ok items →
      OffRoad placements catalogue rules supportsY near gridMin gridMax items) ↔
      (palette ∈ palettes.keys → ∀ c ∈ chosenColumns R
        (freeCells (routeColumns placements catalogue) gridMin gridMax near) density seed,
        ¬PillarColumn placements catalogue rules supportsY c) := by
  cases hmodels : palettes.get? palette with
  | none =>
    have hnot : palette ∉ palettes.keys := by
      intro hmem
      obtain ⟨models, hkv⟩ := Dict.mem_keys.mp hmem
      rw [Dict.get?_eq_some hkv] at hmodels
      cases hmodels
    refine iff_of_true ?_ fun h => absurd h hnot
    intro items h
    unfold buildScenery at h
    rw [hmodels] at h
    cases h
  | some models =>
    have hmem : palette ∈ palettes.keys := Dict.mem_keys.mpr ⟨models, Dict.mem_items_of_get? hmodels⟩
    obtain ⟨items, hitems, hcolumns⟩ := buildScenery_known R placements catalogue seed density near
      gridMin gridMax groundY hmodels
    have hnodup := R.sample_nodup
      (freeCells_nodup (routeColumns placements catalogue) gridMin gridMax near)
      (takeOf (freeCells (routeColumns placements catalogue) gridMin gridMax near) density)
      (R.seeded seed)
    have hexact := offRoad_iff_chosen rules supportsY hnodup
      (fun c hc => free_of_mem_chosen hc) hcolumns
    constructor
    · intro h _
      exact hexact.mp (h items hitems)
    · intro h items' hitems'
      rw [hitems] at hitems'
      obtain rfl := Except.ok.inj hitems'
      exact hexact.mpr (h hmem)

end Exact

/-- One run keeps out of the pillars exactly when its seed draws no column with one; all runs do
exactly when no free column has one, or none is drawn. -/
theorem scenery_offRoad_iff (placements : List Placement) (catalogue : Dict String BlockDef)
    (rules : PillarRules) (supportsY : Option Int) (palette : String) (density : ℚ)
    (near gridMin gridMax groundY : Int) :
    (∀ (ρ : Type) (R : Sampler ρ) (seed : Int),
      (∀ items, buildScenery R placements catalogue seed palette density near gridMin gridMax
          groundY = .ok items →
        OffRoad placements catalogue rules supportsY near gridMin gridMax items) ↔
        (palette ∈ palettes.keys → ∀ c ∈ chosenColumns R
          (freeCells (routeColumns placements catalogue) gridMin gridMax near) density seed,
          ¬PillarColumn placements catalogue rules supportsY c)) ∧
    ((∀ (ρ : Type) (R : Sampler ρ) (seed : Int) (items : List Item),
      buildScenery R placements catalogue seed palette density near gridMin gridMax groundY =
          .ok items →
        OffRoad placements catalogue rules supportsY near gridMin gridMax items) ↔
      (palette ∈ palettes.keys →
        takeOf (freeCells (routeColumns placements catalogue) gridMin gridMax near) density ≠ 0 →
          ∀ c, Free (routeColumns placements catalogue) gridMin gridMax near c →
            ¬PillarColumn placements catalogue rules supportsY c)) := by
  refine ⟨fun ρ R seed => run_offRoad_iff R seed palette density groundY, ?_⟩
  constructor
  · intro h hpalette htake c hc
    -- Some seed of the rotating source draws the column.
    obtain ⟨seed, hseed⟩ := Sampler.exists_mem_sample_rotating (Nat.pos_of_ne_zero htake)
      (takeOf_le _ density) (mem_freeCells.mpr hc)
    exact (run_offRoad_iff Sampler.rotating seed palette density groundY).mp
      (h Nat Sampler.rotating seed) hpalette c hseed
  · intro h ρ R seed
    refine (run_offRoad_iff R seed palette density groundY).mpr ?_
    intro hpalette c hc
    by_cases htake :
        takeOf (freeCells (routeColumns placements catalogue) gridMin gridMax near) density = 0
    · unfold chosenColumns at hc
      rw [htake, sample_zero] at hc
      cases hc
    · exact h hpalette htake c (free_of_mem_chosen hc)

/-! ## A pillar beside its block -/

/-- One cell. -/
def block (blockId : String) : BlockDef :=
  ⟨blockId, "None", [⟨"ground", 0, ⟨1, 1, 1⟩, [⟨⟨0, 0, 0⟩, Dict.empty⟩]⟩]⟩

def sideCatalogue : Dict String BlockDef :=
  ⟨[("Road", block "Road"), ("Pillar", block "Pillar")], by decide⟩

/-- The pillar of the road stands east of it. -/
def sideRules : PillarRules := ⟨⟨[("Road", ⟨[⟨1, 0, "Pillar", 0, 0⟩], true⟩)], by decide⟩, 9⟩

def sideRoute : List Placement := [⟨"Road", 24, 10, 24, 0, none⟩]

/-- An item for every free column: one of them stands in the pillar. -/
theorem scenery_in_pillar :
    ¬∀ items, buildScenery Sampler.rotating sideRoute sideCatalogue 1 "desert" 1 1 0 48 9 =
        .ok items →
      OffRoad sideRoute sideCatalogue sideRules none 1 0 48 items := by
  intro h
  have hdrawn := (run_offRoad_iff Sampler.rotating 1 "desert" 1 9).mp h (by decide)
  have hfree : Free (routeColumns sideRoute sideCatalogue) 0 48 1 ⟨25, 24⟩ := by
    refine ⟨by decide +kernel, by decide, by decide, ⟨24, 24⟩, by decide +kernel, by decide⟩
  refine hdrawn ⟨25, 24⟩ (mem_chosen_of_full (le_refl 1) (mem_freeCells.mpr hfree)) ?_
  refine ⟨⟨"Pillar", 25, 9, 24, 0, some 0⟩, by decide +kernel, ⟨25, 9, 24⟩, by decide +kernel, rfl⟩

end TraxMania.Generation.Scenery
