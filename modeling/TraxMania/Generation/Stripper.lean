import TraxMania.Generation.GeomValidator
import TraxMania.Generation.RouteAssembly
import Mathlib.Data.Finset.Union

/-
  Level-2 strip-to-route: the cells that a policy keeps around a route, the blocks in those cells,
  and whether the route is still there.

  The volume a strip keeps: around every path cell a box of the policy, the anchors' own cells, and
  for all policies but the first a cube around every anchor cell. Each policy keeps what the one
  before it keeps.
-/

namespace TraxMania.Generation.Strip

open TraxMania.Grid Route Validation

section

variable {σ : Type}

/-- The strip policies. -/
inductive StripPolicy where
  | none
  | haloAxis1
  | haloAxis1PlusAnchorRadius3
  | haloAxis1PlusAnchorRadius3Vext3
  | haloXzCheb1Vext3PlusAnchorRadius3
  | haloPrism3x7x3PlusAnchorRadius3
deriving DecidableEq

/-- `_ANCHOR_RADIUS_CHEB`. -/
def anchorRadiusCheb : Nat := 3

/-- `_PATH_VERTICAL_EXT`. -/
def pathVerticalExt : Nat := 3

/-- `range(-radius, radius + 1)`. -/
def around (radius : Nat) : List Int :=
  (List.range (2 * radius + 1)).map fun i => (i : Int) - radius

/-- The offsets of a box of half widths `rx`, `ry` and `rz`. -/
def boxOffsets (rx ry rz : Nat) : List Cell :=
  (around rx).flatMap fun dx => (around ry).flatMap fun dy => (around rz).map fun dz => ⟨dx, dy, dz⟩

/-- `_AXIS_NEIGHBORS`. -/
def axisNeighbors : List Cell :=
  [⟨1, 0, 0⟩, ⟨-1, 0, 0⟩, ⟨0, 1, 0⟩, ⟨0, -1, 0⟩, ⟨0, 0, 1⟩, ⟨0, 0, -1⟩]

/-- `_XZ_CHEB_1_NEIGHBORS`. -/
def xzCheb1Neighbors : List Cell := (boxOffsets 1 0 1).filter fun d => d.x ≠ 0 ∨ d.z ≠ 0

/-- `_cheb_cube`. -/
def chebCube (centre : Cell) (radius : Nat) : List Cell :=
  (boxOffsets radius radius radius).map fun d => centre + d

theorem mem_around {r : Nat} {d : Int} : d ∈ around r ↔ |d| ≤ r := by
  have hmem : d ∈ around r ↔ ∃ i : Nat, i < 2 * r + 1 ∧ (i : Int) - r = d := by
    unfold around
    simp
  rw [hmem, abs_le]
  constructor
  · intro ⟨i, hi, h⟩
    omega
  · intro h
    exact ⟨(d + r).toNat, by omega, by omega⟩

theorem mem_boxOffsets {rx ry rz : Nat} {d : Cell} :
    d ∈ boxOffsets rx ry rz ↔ |d.x| ≤ rx ∧ |d.y| ≤ ry ∧ |d.z| ≤ rz := by
  unfold boxOffsets
  simp only [List.mem_flatMap, List.mem_map, mem_around]
  constructor
  · intro ⟨dx, hx, dy, hy, dz, hz, h⟩
    subst h
    exact ⟨hx, hy, hz⟩
  · intro ⟨hx, hy, hz⟩
    exact ⟨d.x, hx, d.y, hy, d.z, hz, rfl⟩

theorem mem_chebCube {c centre : Cell} {r : Nat} :
    c ∈ chebCube centre r ↔ chebyshev c centre ≤ r := by
  have hsub : chebyshev c centre ≤ r ↔ c - centre ∈ boxOffsets r r r := by
    rw [mem_boxOffsets, chebyshev, max_le_iff, max_le_iff, and_assoc]
    rfl
  rw [hsub, chebCube, List.mem_map]
  constructor
  · intro ⟨d, hd, h⟩
    rwa [← h, Cell.add_sub_self]
  · intro h
    exact ⟨c - centre, h, Cell.add_sub_of centre c⟩

namespace StripPolicy

/-- `uses_anchor_radius`. -/
def usesAnchorRadius : StripPolicy → Bool
  | none | haloAxis1 => false
  | _ => true

/-- The offsets of the cells kept around a path cell. -/
def haloOffsets : StripPolicy → List Cell
  | none => []
  | haloAxis1 | haloAxis1PlusAnchorRadius3 => axisNeighbors
  | haloAxis1PlusAnchorRadius3Vext3 =>
    axisNeighbors ++ (boxOffsets 0 pathVerticalExt 0).filter fun d => d.y ≠ 0
  | haloXzCheb1Vext3PlusAnchorRadius3 =>
    xzCheb1Neighbors ++ (boxOffsets 0 pathVerticalExt 0).filter fun d => d.y ≠ 0
  | haloPrism3x7x3PlusAnchorRadius3 => boxOffsets 1 pathVerticalExt 1

end StripPolicy

/-- The paths of a route, interval by interval. -/
def routePaths (route : AssembledRoute σ) : List (List Cell) :=
  route.intervals.map fun iv => iv.chosen.pathCells

/-- `compute_kept_cells`, as the list of what is added to the set. -/
def computeKeptCells (route : AssembledRoute σ) (policy : StripPolicy) (anchorCells : List Cell) :
    List Cell :=
  ((routePaths route).flatMap fun path =>
      path.flatMap fun cell => cell :: policy.haloOffsets.map fun d => cell + d) ++
    route.anchors.filterMap Anchor.cell ++
    if policy.usesAnchorRadius then anchorCells.flatMap fun c => chebCube c anchorRadiusCheb else []

/-- `filter_blocks_by_cells`. -/
def filterBlocksByCells (blocks : List MapBlock) (keptCells : List Cell) : List MapBlock :=
  blocks.filter fun b => b.cell ∈ keptCells

/-- The error text of `verify_route_on_kept_cells`. -/
def droppedDetail (ivIdx : Nat) (corridorId : Int) (cellIdx : Nat) (cell : Cell) : String :=
  "interval " ++ toString ivIdx ++ " corridor " ++ toString corridorId ++ " cell #" ++
    toString cellIdx ++ " " ++ cellText cell ++ " dropped by strip — halo too tight for this route"

/-- `verify_route_on_kept_cells`: the detail of the first dropped cell. -/
def verifyRouteOnKeptCells (route : AssembledRoute σ) (keptCells : List Cell) : Option String :=
  route.intervals.zipIdx.findSome? fun (iv, ivIdx) =>
    iv.chosen.pathCells.zipIdx.findSome? fun (cell, cellIdx) =>
      if cell ∈ keptCells then .none
      else some (droppedDetail ivIdx iv.chosen.corridorId cellIdx cell)

structure StripResult where
  strippedBlocks : List MapBlock
  keptBlockCount : Nat
  baseBlockCount : Nat
  stripPolicy : StripPolicy
  routeIntact : Bool
  brokenDetail : Option String

/-- `strip_route`. -/
def stripRoute (route : AssembledRoute σ) (baseBlocks : List MapBlock) (policy : StripPolicy)
    (anchorCells : List Cell) : StripResult :=
  if policy = .none then ⟨baseBlocks, baseBlocks.length, baseBlocks.length, .none, true, .none⟩
  else
    let keptCells := computeKeptCells route policy anchorCells
    let stripped := filterBlocksByCells baseBlocks keptCells
    let detail := verifyRouteOnKeptCells route keptCells
    ⟨stripped, stripped.length, baseBlocks.length, policy, detail.isNone, detail⟩

/-- The path cells are kept themselves, so no policy breaks the route. -/
theorem stripRoute_intact (route : AssembledRoute σ) (baseBlocks : List MapBlock)
    (policy : StripPolicy) (anchorCells : List Cell) :
    (stripRoute route baseBlocks policy anchorCells).routeIntact = true := by
  unfold stripRoute
  split
  · rfl
  · have hkept : ∀ iv ∈ route.intervals, ∀ cell ∈ iv.chosen.pathCells,
        cell ∈ computeKeptCells route policy anchorCells := by
      intro iv hiv cell hcell
      have hpath : iv.chosen.pathCells ∈ routePaths route := List.mem_map_of_mem hiv
      refine List.mem_append_left _ (List.mem_append_left _ ?_)
      exact List.mem_flatMap.mpr ⟨_, hpath, List.mem_flatMap.mpr ⟨cell, hcell, by simp⟩⟩
    have hdetail :
        verifyRouteOnKeptCells route (computeKeptCells route policy anchorCells) = .none := by
      unfold verifyRouteOnKeptCells
      rw [List.findSome?_eq_none_iff]
      intro iv hiv
      rw [List.findSome?_eq_none_iff]
      intro cell hcell
      exact if_pos (hkept iv.1 (List.fst_mem_of_mem_zipIdx hiv) cell.1
        (List.fst_mem_of_mem_zipIdx hcell))
    simp only [hdetail, Option.isNone_none]

/-- What is stripped depends on the anchors and on the paths only. -/
theorem strippedBlocks_congr {r r' : AssembledRoute σ} (baseBlocks : List MapBlock)
    (policy : StripPolicy) (anchorCells : List Cell) (hanchors : r.anchors = r'.anchors)
    (hpaths : routePaths r = routePaths r') :
    (stripRoute r baseBlocks policy anchorCells).strippedBlocks =
      (stripRoute r' baseBlocks policy anchorCells).strippedBlocks := by
  have hkept : computeKeptCells r policy anchorCells = computeKeptCells r' policy anchorCells := by
    rw [computeKeptCells, computeKeptCells, hpaths, hanchors]
  unfold stripRoute
  split
  · rfl
  · simp only [hkept]

end

variable {σ β : Type}

/-! ## The flags and the loops -/

namespace StripPolicy

/-- `uses_path_axis_halo`. -/
def usesPathAxisHalo : StripPolicy → Bool
  | haloAxis1 | haloAxis1PlusAnchorRadius3 | haloAxis1PlusAnchorRadius3Vext3 => true
  | _ => false

/-- `uses_path_xz_cheb1`. -/
def usesPathXzCheb1 : StripPolicy → Bool
  | haloXzCheb1Vext3PlusAnchorRadius3 => true
  | _ => false

/-- `uses_vertical_ext`. -/
def usesVerticalExt : StripPolicy → Bool
  | haloAxis1PlusAnchorRadius3Vext3 | haloXzCheb1Vext3PlusAnchorRadius3 => true
  | _ => false

/-- `uses_prism`. -/
def usesPrism : StripPolicy → Bool
  | haloPrism3x7x3PlusAnchorRadius3 => true
  | _ => false

/-- The policies that keep a halo around the path, each subsumed by the next. -/
def haloPolicies : List StripPolicy :=
  [haloAxis1, haloAxis1PlusAnchorRadius3, haloAxis1PlusAnchorRadius3Vext3,
    haloXzCheb1Vext3PlusAnchorRadius3, haloPrism3x7x3PlusAnchorRadius3]

end StripPolicy

/-- `for d in offsets: kept.add(cell + d)`. -/
def addAround (cell : Cell) (offsets : List Cell) (kept : Finset Cell) : Finset Cell :=
  offsets.foldl (fun kept d => insert (cell + d) kept) kept

/-- The body of `for cell in iv.chosen.path_cells`. -/
def keepPathCell (policy : StripPolicy) (kept : Finset Cell) (cell : Cell) : Finset Cell :=
  let kept := insert cell kept
  let kept := if policy.usesPathAxisHalo then addAround cell axisNeighbors kept else kept
  let kept := if policy.usesPathXzCheb1 then addAround cell xzCheb1Neighbors kept else kept
  let kept := if policy.usesVerticalExt then
    addAround cell ((boxOffsets 0 pathVerticalExt 0).filter fun d => d.y ≠ 0) kept else kept
  if policy.usesPrism then addAround cell (boxOffsets 1 pathVerticalExt 1) kept else kept

/-- `compute_kept_cells`. -/
def keptCells (route : AssembledRoute σ) (policy : StripPolicy) (anchorCells : List Cell) :
    Finset Cell :=
  let kept := (routePaths route).foldl (fun kept path => path.foldl (keepPathCell policy) kept) ∅
  let kept := (route.anchors.filterMap Anchor.cell).foldl (fun kept c => insert c kept) kept
  if policy.usesAnchorRadius then
    anchorCells.foldl (fun kept c => kept ∪ (chebCube c anchorRadiusCheb).toFinset) kept
  else kept

/-! ## The volume -/

/-- The axis cross. -/
def InCross (d : Cell) : Prop := d.x.natAbs + d.y.natAbs + d.z.natAbs ≤ 1

/-- The vertical column of 3. -/
def InColumn (d : Cell) : Prop := d.x = 0 ∧ d.z = 0 ∧ d.y.natAbs ≤ 3

/-- The 3×3 plane. -/
def InPlane (d : Cell) : Prop := d.x.natAbs ≤ 1 ∧ d.y = 0 ∧ d.z.natAbs ≤ 1

/-- The 3×7×3 prism. -/
def InPrism (d : Cell) : Prop := d.x.natAbs ≤ 1 ∧ d.y.natAbs ≤ 3 ∧ d.z.natAbs ≤ 1

/-- The box a policy keeps around a path cell. -/
def StripPolicy.InHalo : StripPolicy → Cell → Prop
  | none, d => d = ⟨0, 0, 0⟩
  | haloAxis1, d | haloAxis1PlusAnchorRadius3, d => InCross d
  | haloAxis1PlusAnchorRadius3Vext3, d => InCross d ∨ InColumn d
  | haloXzCheb1Vext3PlusAnchorRadius3, d => InPlane d ∨ InColumn d
  | haloPrism3x7x3PlusAnchorRadius3, d => InPrism d

/-- What a policy keeps. -/
def InKeptVolume (route : AssembledRoute σ) (policy : StripPolicy) (anchorCells : List Cell)
    (c : Cell) : Prop :=
  (∃ iv ∈ route.intervals, ∃ p ∈ iv.chosen.pathCells, policy.InHalo (c - p)) ∨
    (∃ a ∈ route.anchors, a.cell = some c) ∨
    policy ≠ .haloAxis1 ∧ ∃ a ∈ anchorCells, chebyshev c a ≤ 3

/-! ## The offsets of a policy -/

theorem mem_addAround {cell c : Cell} {offsets : List Cell} {kept : Finset Cell} :
    c ∈ addAround cell offsets kept ↔ c ∈ kept ∨ c - cell ∈ offsets := by
  unfold addAround
  induction offsets generalizing kept with
  | nil => simp
  | cons d offsets ih =>
    rw [List.foldl_cons, ih, Finset.mem_insert, List.mem_cons]
    have hd : c = cell + d ↔ c - cell = d := by
      constructor
      · intro h
        rw [h, Cell.add_sub_self]
      · intro h
        rw [← h, Cell.add_sub_of]
    rw [hd]
    tauto

theorem mem_axisNeighbors {d : Cell} :
    d ∈ axisNeighbors ↔ d.x.natAbs + d.y.natAbs + d.z.natAbs = 1 := by
  rw [Cell.natAbs_eq_one_iff]
  simp only [axisNeighbors, List.mem_cons, List.not_mem_nil, or_false]

theorem mem_xzCheb1Neighbors {d : Cell} :
    d ∈ xzCheb1Neighbors ↔ InPlane d ∧ (d.x ≠ 0 ∨ d.z ≠ 0) := by
  unfold xzCheb1Neighbors InPlane
  rw [List.mem_filter, mem_boxOffsets, Int.abs_eq_natAbs, Int.abs_eq_natAbs, Int.abs_eq_natAbs,
    decide_eq_true_iff]
  omega

theorem mem_verticalOffsets {d : Cell} :
    d ∈ (boxOffsets 0 pathVerticalExt 0).filter (fun d => d.y ≠ 0) ↔ InColumn d ∧ d.y ≠ 0 := by
  unfold InColumn pathVerticalExt
  rw [List.mem_filter, mem_boxOffsets, Int.abs_eq_natAbs, Int.abs_eq_natAbs, Int.abs_eq_natAbs,
    decide_eq_true_iff]
  omega

theorem mem_prismOffsets {d : Cell} : d ∈ boxOffsets 1 pathVerticalExt 1 ↔ InPrism d := by
  unfold InPrism pathVerticalExt
  rw [mem_boxOffsets, Int.abs_eq_natAbs, Int.abs_eq_natAbs, Int.abs_eq_natAbs]
  omega

theorem sub_eq_zero_iff {c cell : Cell} : c = cell ↔ c - cell = ⟨0, 0, 0⟩ := by
  rw [Cell.ext_iff, Cell.ext_iff]
  simp only [Cell.sub_x, Cell.sub_y, Cell.sub_z]
  omega

theorem mem_ite_addAround {cell c : Cell} {offsets : List Cell} {kept : Finset Cell} {b : Bool} :
    c ∈ (if b then addAround cell offsets kept else kept) ↔
      c ∈ kept ∨ b = true ∧ c - cell ∈ offsets := by
  cases b
  · simp
  · simp [mem_addAround]

/-- The box of a policy is what its four flags switch on. -/
theorem inHalo_iff (policy : StripPolicy) {d : Cell} :
    policy.InHalo d ↔ d = ⟨0, 0, 0⟩ ∨ (policy.usesPathAxisHalo = true ∧ d ∈ axisNeighbors) ∨
      (policy.usesPathXzCheb1 = true ∧ d ∈ xzCheb1Neighbors) ∨
      (policy.usesVerticalExt = true ∧
        d ∈ (boxOffsets 0 pathVerticalExt 0).filter fun d => d.y ≠ 0) ∨
      (policy.usesPrism = true ∧ d ∈ boxOffsets 1 pathVerticalExt 1) := by
  have hzero : d = ⟨0, 0, 0⟩ ↔ d.x = 0 ∧ d.y = 0 ∧ d.z = 0 := Cell.ext_iff
  rw [mem_axisNeighbors, mem_xzCheb1Neighbors, mem_verticalOffsets, mem_prismOffsets]
  unfold InPlane InColumn InPrism
  cases policy <;>
    simp only [StripPolicy.usesPathAxisHalo, StripPolicy.usesPathXzCheb1,
      StripPolicy.usesVerticalExt, StripPolicy.usesPrism, StripPolicy.InHalo, InCross, InColumn,
      InPlane, InPrism, hzero, Bool.false_eq_true, false_and, true_and, or_false, false_or] <;>
    omega

/-- What one path cell adds: the box of the policy around it. -/
theorem mem_keepPathCell (policy : StripPolicy) {kept : Finset Cell} {cell c : Cell} :
    c ∈ keepPathCell policy kept cell ↔ c ∈ kept ∨ policy.InHalo (c - cell) := by
  unfold keepPathCell
  rw [mem_ite_addAround, mem_ite_addAround, mem_ite_addAround, mem_ite_addAround,
    Finset.mem_insert, sub_eq_zero_iff, inHalo_iff, or_comm (b := c ∈ kept)]
  simp only [or_assoc]

theorem mem_foldl_of_adds {ρ : Type} {add : Finset Cell → ρ → Finset Cell} {adds : ρ → Cell → Prop}
    (hadd : ∀ kept r c, c ∈ add kept r ↔ c ∈ kept ∨ adds r c) (rs : List ρ) {kept : Finset Cell}
    {c : Cell} : c ∈ rs.foldl add kept ↔ c ∈ kept ∨ ∃ r ∈ rs, adds r c := by
  induction rs generalizing kept with
  | nil => simp
  | cons r rs ih =>
    rw [List.foldl_cons, ih, hadd, List.exists_mem_cons_iff, or_assoc]

theorem mem_keepPaths (route : AssembledRoute σ) (policy : StripPolicy) {c : Cell} :
    c ∈ (routePaths route).foldl (fun kept path => path.foldl (keepPathCell policy) kept) ∅ ↔
      ∃ iv ∈ route.intervals, ∃ p ∈ iv.chosen.pathCells, policy.InHalo (c - p) := by
  have hpath : ∀ (kept : Finset Cell) (path : List Cell) (c : Cell),
      c ∈ path.foldl (keepPathCell policy) kept ↔
        c ∈ kept ∨ ∃ p ∈ path, policy.InHalo (c - p) := by
    intro kept path c
    have hcell : ∀ (kept : Finset Cell) (cell c : Cell),
        c ∈ keepPathCell policy kept cell ↔ c ∈ kept ∨ policy.InHalo (c - cell) := by
      intro kept cell c
      exact mem_keepPathCell policy
    exact mem_foldl_of_adds hcell path
  rw [mem_foldl_of_adds hpath, routePaths]
  simp

theorem mem_keepAnchors {cells : List Cell} {kept : Finset Cell} {c : Cell} :
    c ∈ cells.foldl (fun kept c => insert c kept) kept ↔ c ∈ kept ∨ c ∈ cells := by
  have hadd : ∀ (kept : Finset Cell) (r c : Cell), c ∈ insert r kept ↔ c ∈ kept ∨ c = r := by
    intro kept r c
    rw [Finset.mem_insert, or_comm]
  rw [mem_foldl_of_adds hadd]
  simp

theorem mem_keepCubes {cells : List Cell} {kept : Finset Cell} {c : Cell} :
    c ∈ cells.foldl (fun kept c => kept ∪ (chebCube c anchorRadiusCheb).toFinset) kept ↔
      c ∈ kept ∨ ∃ a ∈ cells, chebyshev c a ≤ 3 := by
  have hadd : ∀ (kept : Finset Cell) (a c : Cell),
      c ∈ kept ∪ (chebCube a anchorRadiusCheb).toFinset ↔ c ∈ kept ∨ chebyshev c a ≤ 3 := by
    intro kept a c
    rw [Finset.mem_union, List.mem_toFinset, mem_chebCube]
    rfl
  exact mem_foldl_of_adds hadd cells

theorem usesAnchorRadius_iff {policy : StripPolicy} (hpolicy : policy ≠ .none) :
    policy.usesAnchorRadius = true ↔ policy ≠ .haloAxis1 := by
  cases policy <;> simp_all [StripPolicy.usesAnchorRadius]

/-- The kept cells are the announced volume. -/
theorem mem_keptCells (route : AssembledRoute σ) {policy : StripPolicy} (hpolicy : policy ≠ .none)
    (anchorCells : List Cell) (c : Cell) :
    c ∈ keptCells route policy anchorCells ↔ InKeptVolume route policy anchorCells c := by
  have hanchors : c ∈ route.anchors.filterMap Anchor.cell ↔
      ∃ a ∈ route.anchors, a.cell = some c := List.mem_filterMap
  unfold keptCells InKeptVolume
  split
  · rename_i hradius
    have hne := (usesAnchorRadius_iff hpolicy).mp hradius
    rw [mem_keepCubes, mem_keepAnchors, mem_keepPaths, hanchors, or_assoc]
    simp only [hne, ne_eq, not_false_eq_true, true_and]
  · rename_i hradius
    have heq : ¬policy ≠ .haloAxis1 := fun h => hradius ((usesAnchorRadius_iff hpolicy).mpr h)
    rw [mem_keepAnchors, mem_keepPaths, hanchors]
    simp only [heq, false_and, or_false]

/-! ## The chain of policies -/

/-- What makes a policy keep at least what another keeps. -/
def Subsumes (q p : StripPolicy) : Prop := q ≠ .haloAxis1 ∧ ∀ d, p.InHalo d → q.InHalo d

/-- Every policy of the chain subsumes the one before it. -/
theorem haloPolicies_isChain :
    StripPolicy.haloPolicies.IsChain fun p q => Subsumes q p := by
  unfold StripPolicy.haloPolicies Subsumes
  simp only [List.isChain_cons_cons, List.isChain_singleton, and_true, StripPolicy.InHalo, InCross,
    InColumn, InPlane, InPrism]
  refine ⟨⟨by simp, ?_⟩, ⟨by simp, ?_⟩, ⟨by simp, ?_⟩, by simp, ?_⟩ <;>
  · intro d
    omega

theorem keptVolume_mono {route : AssembledRoute σ} {p q : StripPolicy} {anchorCells : List Cell}
    {c : Cell} (hpq : Subsumes q p) (hc : InKeptVolume route p anchorCells c) :
    InKeptVolume route q anchorCells c := by
  obtain ⟨iv, hiv, cell, hcell, hd⟩ | hanchor | ⟨-, hball⟩ := hc
  · exact Or.inl ⟨iv, hiv, cell, hcell, hpq.2 _ hd⟩
  · exact Or.inr (Or.inl hanchor)
  · exact Or.inr (Or.inr ⟨hpq.1, hball⟩)

theorem haloPolicies_pairwise : StripPolicy.haloPolicies.Pairwise fun p q => Subsumes q p := by
  have htrans : IsTrans StripPolicy fun p q => Subsumes q p :=
    ⟨fun p q r hpq hqr => ⟨hqr.1, fun d hd => hqr.2 d (hpq.2 d hd)⟩⟩
  exact List.isChain_iff_pairwise.mp haloPolicies_isChain

/-! ## The list of what is added -/

theorem mem_haloOffsets (policy : StripPolicy) {d : Cell} :
    d = ⟨0, 0, 0⟩ ∨ d ∈ policy.haloOffsets ↔ policy.InHalo d := by
  rw [inHalo_iff]
  cases policy <;>
    simp [StripPolicy.haloOffsets, StripPolicy.usesPathAxisHalo, StripPolicy.usesPathXzCheb1,
      StripPolicy.usesVerticalExt, StripPolicy.usesPrism]

/-! ## The blocks -/

/-- A block as the database hands it over, with its coordinates as they are stored. -/
structure BlockRow (ν β : Type) where
  x : Option ν
  y : Option ν
  z : Option ν
  block : β

/-- `_block_cell`; `asInt` is `int`, with no value where it raises. -/
def blockCell {ν : Type} (asInt : ν → Option Int) (b : BlockRow ν β) : Option Cell :=
  match b.x, b.y, b.z with
  | some x, some y, some z => do
    let x ← asInt x
    let y ← asInt y
    let z ← asInt z
    some ⟨x, y, z⟩
  | _, _, _ => .none

/-- `filter_blocks_by_cells`, on rows. -/
def filterRowsByCells {ν : Type} (asInt : ν → Option Int) (blocks : List (BlockRow ν β))
    (kept : Finset Cell) : List (BlockRow ν β) :=
  blocks.foldl (fun out b =>
    match blockCell asInt b with
    | .none => out
    | some cell => if cell ∈ kept then out ++ [b] else out) []

/-- `verify_route_on_kept_cells`, on the set. -/
def verifyRouteOnKeptSet (route : AssembledRoute σ) (kept : Finset Cell) : Bool × Option String :=
  let dropped := route.intervals.zipIdx.findSome? fun (iv, ivIdx) =>
    iv.chosen.pathCells.zipIdx.findSome? fun (cell, cellIdx) =>
      if cell ∉ kept then some (droppedDetail ivIdx iv.chosen.corridorId cellIdx cell) else .none
  match dropped with
  | some detail => (false, some detail)
  | .none => (true, .none)

/-- `StripResult`, of rows. -/
structure StrippedRows (ν β : Type) where
  strippedBlocks : List (BlockRow ν β)
  keptCells : Finset Cell
  keptBlockCount : Nat
  baseBlockCount : Nat
  stripPolicy : StripPolicy
  routeIntact : Bool
  brokenDetail : Option String

/-- `strip_route`, on rows. -/
def stripRows {ν : Type} (asInt : ν → Option Int) (route : AssembledRoute σ)
    (baseBlocks : List (BlockRow ν β)) (policy : StripPolicy) (anchorCells : List Cell) :
    StrippedRows ν β :=
  if policy = .none then
    ⟨baseBlocks, ∅, baseBlocks.length, baseBlocks.length, .none, true, .none⟩
  else
    let kept := keptCells route policy anchorCells
    let stripped := filterRowsByCells asInt baseBlocks kept
    let (intact, detail) := verifyRouteOnKeptSet route kept
    ⟨stripped, kept, stripped.length, baseBlocks.length, policy, intact, detail⟩

theorem filterRowsByCells_eq {ν : Type} (asInt : ν → Option Int) (blocks : List (BlockRow ν β))
    (kept : Finset Cell) :
    filterRowsByCells asInt blocks kept =
      blocks.filter fun b => (blockCell asInt b).any fun c => c ∈ kept := by
  have hloop : ∀ out, blocks.foldl (fun out b =>
      match blockCell asInt b with
      | .none => out
      | some cell => if cell ∈ kept then out ++ [b] else out) out =
        out ++ blocks.filter fun b => (blockCell asInt b).any fun c => c ∈ kept := by
    induction blocks with
    | nil => simp
    | cons b blocks ih =>
      intro out
      rw [List.foldl_cons, ih, List.filter_cons]
      cases blockCell asInt b with
      | none => rfl
      | some cell => by_cases hcell : cell ∈ kept <;> simp [hcell]
  exact hloop []

/-- The path cells are in the volume, so the check passes. -/
theorem verifyRouteOnKeptSet_keptCells (route : AssembledRoute σ) {policy : StripPolicy}
    (hpolicy : policy ≠ .none) (anchorCells : List Cell) :
    verifyRouteOnKeptSet route (keptCells route policy anchorCells) = (true, .none) := by
  have hkept : ∀ iv ∈ route.intervals, ∀ cell ∈ iv.chosen.pathCells,
      cell ∈ keptCells route policy anchorCells := by
    intro iv hiv cell hcell
    have hzero : policy.InHalo (cell - cell) := by
      rw [← mem_haloOffsets]
      exact Or.inl (sub_eq_zero_iff.mp rfl)
    exact (mem_keptCells route hpolicy anchorCells cell).mpr (Or.inl ⟨iv, hiv, cell, hcell, hzero⟩)
  have hdropped : (route.intervals.zipIdx.findSome? fun (iv, ivIdx) =>
      iv.chosen.pathCells.zipIdx.findSome? fun (cell, cellIdx) =>
        if cell ∉ keptCells route policy anchorCells then
          some (droppedDetail ivIdx iv.chosen.corridorId cellIdx cell) else .none) = .none := by
    rw [List.findSome?_eq_none_iff]
    intro iv hiv
    rw [List.findSome?_eq_none_iff]
    intro cell hcell
    have hmem := hkept iv.1 (List.fst_mem_of_mem_zipIdx hiv) cell.1
      (List.fst_mem_of_mem_zipIdx hcell)
    exact if_neg (not_not_intro hmem)
  unfold verifyRouteOnKeptSet
  rw [hdropped]

theorem stripRows_eq {ν : Type} (asInt : ν → Option Int) (route : AssembledRoute σ)
    (baseBlocks : List (BlockRow ν β)) {policy : StripPolicy} (hpolicy : policy ≠ .none)
    (anchorCells : List Cell) :
    stripRows asInt route baseBlocks policy anchorCells =
      let kept := keptCells route policy anchorCells
      let stripped := baseBlocks.filter fun b => (blockCell asInt b).any fun c => c ∈ kept
      ⟨stripped, kept, stripped.length, baseBlocks.length, policy, true, .none⟩ := by
  unfold stripRows
  rw [if_neg hpolicy]
  dsimp only
  rw [verifyRouteOnKeptSet_keptCells route hpolicy, filterRowsByCells_eq]

theorem ne_none_of_mem_haloPolicies {policy : StripPolicy}
    (h : policy ∈ StripPolicy.haloPolicies) : policy ≠ .none := by
  intro hnone
  subst hnone
  simp [StripPolicy.haloPolicies] at h

/-- Each policy keeps the volume it announces, each keeps what the one before it keeps, and the
blocks that stay are those in the volume. -/
theorem strip_keeps_volume {ν : Type} (asInt : ν → Option Int) (route : AssembledRoute σ)
    (baseBlocks : List (BlockRow ν β)) (anchorCells : List Cell) :
    (∀ policy ∈ StripPolicy.haloPolicies,
      (∀ c, c ∈ keptCells route policy anchorCells ↔
        InKeptVolume route policy anchorCells c) ∧
      (stripRows asInt route baseBlocks policy anchorCells).strippedBlocks =
        baseBlocks.filter fun b =>
          (blockCell asInt b).any fun c => c ∈ keptCells route policy anchorCells) ∧
    (StripPolicy.haloPolicies.Pairwise fun p q =>
      keptCells route p anchorCells ⊆ keptCells route q anchorCells) ∧
    ∀ policy, (stripRows asInt route baseBlocks policy anchorCells).routeIntact = true := by
  refine ⟨?_, ?_, ?_⟩
  · intro policy hmem
    have hpolicy := ne_none_of_mem_haloPolicies hmem
    refine ⟨mem_keptCells route hpolicy anchorCells, ?_⟩
    rw [stripRows_eq asInt route baseBlocks hpolicy]
  · refine haloPolicies_pairwise.imp_of_mem ?_
    intro p q hp hq hpq c hc
    rw [mem_keptCells route (ne_none_of_mem_haloPolicies hp)] at hc
    rw [mem_keptCells route (ne_none_of_mem_haloPolicies hq)]
    exact keptVolume_mono hpq hc
  · intro policy
    by_cases hpolicy : policy = .none
    · rw [stripRows, if_pos hpolicy]
    · rw [stripRows_eq asInt route baseBlocks hpolicy]

end TraxMania.Generation.Strip
