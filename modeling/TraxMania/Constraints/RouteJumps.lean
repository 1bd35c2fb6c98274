import TraxMania.Constraints.RouteSequences
import Mathlib.Tactic.Ring

/-
  `constraints/route_jumps.py`, `extract_jumps`: the gaps of a map between an open end of one route
  block and an open end of another that points back at it.

  The scan knows the cells of route blocks only, and it passes over those of the block it starts
  from. So "nothing is in between" holds of other route blocks, but not of supports, of scenery and
  of the block itself.
-/

namespace TraxMania.RouteJumps

open TraxMania.Grid TraxMania.Catalogue TraxMania.Constraints.RouteSequences Lib
open TraxMania.Constraints (localOffset)

/-! ## Route blocks -/

/-- `MAX_JUMP_GAP`. -/
def maxJumpGap : Nat := 6

/-- `_SURFACE_PREFIXES`. -/
def surfacePrefixes : List String :=
  ["RoadTech", "RoadDirt", "RoadBump", "RoadIce", "RoadWater",
    "PlatformTech", "PlatformDirt", "PlatformIce", "PlatformGrass",
    "PlatformPlastic", "PlatformWater", "OpenTechRoad", "OpenDirtRoad", "Gate"]

/-- `_IS_ROUTE_SURFACE`. -/
def isRouteSurface (name : String) : Bool :=
  surfacePrefixes.any (fun start => decide (start.toList <+: name.toList)) &&
    !decide ("Wall".toList <:+: name.toList)

/-- The blocks that the racing line may run over. -/
def isRoute (name : String) : Bool := !isSupport name && isRouteSurface name

/-- A row as a placement: its rotation is one of `0`, `1`, `2`, `3`. -/
def normal (r : Placed) : Placed := { r with rotation := r.rotation % 4 }

/-- `placements`. -/
def routePlacements (rows : List Placed) : List Placed :=
  (rows.filter fun r => isRoute r.name).map normal

/-- `owner`: of blocks on one cell the last. -/
def ownerOf (cells : Placed → List Cell) (placements : List Placed) : Dict Cell Nat :=
  (placements.zipIdx.flatMap fun pi => (cells pi.1).map fun c => (c, pi.2)).foldl
    (fun owner ci => owner.upsert ci.1 fun _ => ci.2) Dict.empty

/-! ## The scan -/

/-- `FACE_DELTAS.values()`. -/
def sideDeltas : List Cell := [faceDelta 0, faceDelta 1, faceDelta 2, faceDelta 3]

/-- The cell `n` steps after `c`. -/
def along (c d : Cell) (n : Int) : Cell := ⟨c.x + d.x * n, c.y + d.y * n, c.z + d.z * n⟩

section Scan

variable (catalogue : Dict String BlockDef) (placements : List Placed)

/-- `open_ends`. -/
def openEnds : List (Nat × Cell × Cell) :=
  placements.zipIdx.flatMap fun pi => (blockCells catalogue pi.1).flatMap fun cell =>
    sideDeltas.filterMap fun d =>
      if cell + d ∈ blockCells catalogue pi.1 ∨
          ((ownerOf (blockCells catalogue) placements).get? (cell + d)).isSome then none
      else some (pi.2, cell, d)

/-- The loop over the gaps from an open end: the landing block and the gap. -/
def scanGaps (owner : Dict Cell Nat) (i : Nat) (cell d : Cell) : List Nat → Option (Nat × Nat)
  | [] => none
  | gap :: gaps =>
    match owner.get? (along cell d (gap + 1)) with
    | none => scanGaps owner i cell d gaps
    | some j =>
      if j = i then scanGaps owner i cell d gaps
      else if (owner.get? (along cell d (gap + 1) + opposite d)).isSome then none
      else some (j, gap)

/-- A jump, with the cell and the direction it is found from. -/
structure Found where
  takeOff : Nat
  cell : Cell
  direction : Cell
  landing : Nat
  gap : Nat
deriving DecidableEq

/-- The jumps of the loop over `open_ends`. -/
def foundJumps : List Found :=
  (openEnds catalogue placements).filterMap fun e =>
    (scanGaps (ownerOf (blockCells catalogue) placements) e.1 e.2.1 e.2.2
      (List.range' 1 maxJumpGap)).map fun jg => ⟨e.1, e.2.1, e.2.2, jg.1, jg.2⟩

/-- An entry of `jumps`. -/
structure Jump where
  a : String
  b : String
  d : Cell
  rel : Int
  gap : Nat
deriving DecidableEq

/-- The entry of a jump. -/
def jumpOf (f : Found) : Option Jump := do
  let a ← placements[f.takeOff]?
  let b ← placements[f.landing]?
  some ⟨a.name, b.name, localOffset (b.pos - a.pos) a.rotation, (b.rotation - a.rotation) % 4,
    f.gap⟩

end Scan

/-- `extract_jumps(rows, catalogue)`. -/
def extractJumps (catalogue : Dict String BlockDef) (rows : List Placed) : List Jump × Nat :=
  let placements := routePlacements rows
  ((foundJumps catalogue placements).filterMap (jumpOf placements),
    (openEnds catalogue placements).length)

/-! ## Owners -/

section Owners

variable {cells : Placed → List Cell} {placements : List Placed} {c : Cell}

theorem mem_ownerRows {ci : Cell × Nat} :
    (ci ∈ placements.zipIdx.flatMap fun pi => (cells pi.1).map fun c => (c, pi.2)) ↔
      ∃ p, placements[ci.2]? = some p ∧ ci.1 ∈ cells p := by
  rw [List.mem_flatMap]
  constructor
  · rintro ⟨pi, hpi, hci⟩
    obtain ⟨c, hc, rfl⟩ := List.mem_map.mp hci
    exact ⟨pi.1, List.mem_zipIdx_iff_getElem?.mp hpi, hc⟩
  · rintro ⟨p, hp, hc⟩
    exact ⟨(p, ci.2), List.mem_zipIdx_iff_getElem?.mpr hp, List.mem_map.mpr ⟨ci.1, hc, rfl⟩⟩

/-- The owner of a cell covers it. -/
theorem covers_of_get?_ownerOf {i : Nat} (h : (ownerOf cells placements).get? c = some i) :
    ∃ p, placements[i]? = some p ∧ c ∈ cells p := by
  obtain ⟨ci, hci, rfl, rfl⟩ := Dict.exists_of_get?_foldl_overwrite h
  exact mem_ownerRows.mp hci

/-- A cell has no owner where no block covers it. -/
theorem get?_ownerOf_eq_none_iff :
    (ownerOf cells placements).get? c = none ↔
      ∀ (i : Nat) (p : Placed), placements[i]? = some p → c ∉ cells p := by
  unfold ownerOf
  rw [Dict.get?_foldl_overwrite_eq_none_iff]
  constructor
  · intro hall i p hp hc
    exact hall (c, i) (mem_ownerRows.mpr ⟨p, hp, hc⟩) rfl
  · rintro hall ci hci rfl
    obtain ⟨p, hp, hc⟩ := mem_ownerRows.mp hci
    exact hall ci.2 p hp hc

end Owners

/-! ## Lanes -/

theorem along_zero (c d : Cell) : along c d 0 = c := by
  unfold along
  simp

theorem along_one (c d : Cell) : along c d 1 = c + d := by
  refine Cell.ext ?_ ?_ ?_ <;> simp [along]

/-- Going back along a lane. -/
theorem along_opposite (c d : Cell) (n m : Int) :
    along (along c d n) (opposite d) m = along c d (n - m) := by
  unfold along opposite
  refine Cell.ext ?_ ?_ ?_ <;> (dsimp only; ring)

theorem along_add_opposite (c d : Cell) (n : Int) :
    along c d (n + 1) + opposite d = along c d n := by
  rw [← along_one, along_opposite, add_sub_cancel_right]

theorem opposite_mem_sideDeltas {d : Cell} (hd : d ∈ sideDeltas) : opposite d ∈ sideDeltas := by
  have hall : ∀ d ∈ sideDeltas, opposite d ∈ sideDeltas := by decide
  exact hall d hd

section Lanes

variable (catalogue : Dict String BlockDef) (rows : List Placed)

/-- A cell of the route block at an index. -/
def RouteCell (i : Nat) (c : Cell) : Prop :=
  ∃ p, (routePlacements rows)[i]? = some p ∧ c ∈ blockCells catalogue p

/-- The jump from `c` in the direction `d` with gap `g` is reported. -/
def Reports (c d : Cell) (g : Nat) : Prop :=
  ∃ i j, (⟨i, c, d, j, g⟩ : Found) ∈ foundJumps catalogue (routePlacements rows)

/-- The `g` cells after `c` hold no block of the map. -/
def Air (c d : Cell) (g : Nat) : Prop :=
  ∀ k : Nat, 1 ≤ k → k ≤ g → ∀ r ∈ rows, along c d k ∉ blockCells catalogue r

/-- From a cell `c` of a route block there is nothing but air to a cell of another one. -/
def CrossesAir (c d : Cell) (g : Nat) : Prop :=
  ∃ i j, i ≠ j ∧ RouteCell catalogue rows i c ∧ RouteCell catalogue rows j (along c d (g + 1)) ∧
    Air catalogue rows c d g

/-- Cells of two route blocks face each other: the first and the last cell between them are of no
    route block, and the others of none but `i`. -/
structure Facing (i j : Nat) (c d : Cell) (g : Nat) : Prop where
  ne : i ≠ j
  takeOff : RouteCell catalogue rows i c
  landing : RouteCell catalogue rows j (along c d (g + 1))
  lane : ∀ k : Nat, 1 ≤ k → k ≤ g → ∀ m, RouteCell catalogue rows m (along c d k) →
    m = i ∧ k ≠ 1 ∧ k ≠ g

/-- No two blocks share a cell. -/
def DisjointFootprints : Prop :=
  rows.Pairwise fun p q => ∀ c ∈ blockCells catalogue p, c ∉ blockCells catalogue q

/-- A mined jump crosses air, and the landing block reports the same gap back. -/
def JumpsCrossAir : Prop :=
  ∀ c, ∀ d ∈ sideDeltas, ∀ g, 1 ≤ g → g ≤ maxJumpGap →
    (Reports catalogue rows c d g ↔ CrossesAir catalogue rows c d g) ∧
      (Reports catalogue rows c d g → Reports catalogue rows (along c d (g + 1)) (opposite d) g)

/-- Between facing ends lies no cell of the block itself and no block that is no route block. -/
def LanesClear : Prop :=
  ∀ i j c, ∀ d ∈ sideDeltas, ∀ g, 1 ≤ g → g ≤ maxJumpGap → Facing catalogue rows i j c d g →
    ∀ k : Nat, 1 ≤ k → k ≤ g → ¬ RouteCell catalogue rows i (along c d k) ∧
      ∀ r ∈ rows, isRoute r.name = false → along c d k ∉ blockCells catalogue r

variable {catalogue rows}

theorem blockCells_normal (p : Placed) :
    blockCells catalogue (normal p) = blockCells catalogue p := by
  unfold blockCells normal
  simp only [rotateOffset_mod]

/-- Route cells are the cells of the rows of route blocks. -/
theorem exists_routeCell_iff {c : Cell} :
    (∃ i, RouteCell catalogue rows i c) ↔
      ∃ r ∈ rows, isRoute r.name = true ∧ c ∈ blockCells catalogue r := by
  unfold RouteCell routePlacements
  constructor
  · rintro ⟨i, p, hp, hc⟩
    obtain ⟨r, hr, rfl⟩ := List.mem_map.mp (List.mem_of_getElem? hp)
    rw [blockCells_normal] at hc
    exact ⟨r, (List.mem_filter.mp hr).1, (List.mem_filter.mp hr).2, hc⟩
  · rintro ⟨r, hr, hroute, hc⟩
    have hmem : normal r ∈ (rows.filter fun r => isRoute r.name).map normal :=
      List.mem_map.mpr ⟨r, List.mem_filter.mpr ⟨hr, hroute⟩, rfl⟩
    obtain ⟨i, hi⟩ := List.mem_iff_getElem?.mp hmem
    refine ⟨i, _, hi, ?_⟩
    rw [blockCells_normal]
    exact hc

variable (hdisjoint : DisjointFootprints catalogue rows)

include hdisjoint

/-- With disjoint footprints a cell is of one route block at most. -/
theorem routeCell_unique {i j : Nat} {c : Cell} (hi : RouteCell catalogue rows i c)
    (hj : RouteCell catalogue rows j c) : i = j := by
  have hroute : (routePlacements rows).Pairwise fun p q =>
      ∀ c ∈ blockCells catalogue p, c ∉ blockCells catalogue q := by
    unfold routePlacements
    rw [List.pairwise_map]
    simp only [blockCells_normal]
    exact List.Pairwise.filter _ hdisjoint
  rw [List.pairwise_iff_getElem] at hroute
  obtain ⟨p, hp, hc⟩ := hi
  obtain ⟨q, hq, hc'⟩ := hj
  obtain ⟨hlt, rfl⟩ := List.getElem?_eq_some_iff.mp hp
  obtain ⟨hlt', rfl⟩ := List.getElem?_eq_some_iff.mp hq
  rcases Nat.lt_trichotomy i j with h | h | h
  · exact absurd hc' (hroute i j hlt hlt' h c hc)
  · exact h
  · exact absurd hc (hroute j i hlt' hlt h c hc')

/-- With disjoint footprints the owner of a cell is the block that covers it. -/
theorem get?_ownerOf_iff {i : Nat} {c : Cell} :
    (ownerOf (blockCells catalogue) (routePlacements rows)).get? c = some i ↔
      RouteCell catalogue rows i c := by
  constructor
  · exact covers_of_get?_ownerOf
  · intro hi
    cases hget : (ownerOf (blockCells catalogue) (routePlacements rows)).get? c with
    | none =>
      obtain ⟨p, hp, hc⟩ := hi
      exact absurd hc (get?_ownerOf_eq_none_iff.mp hget i p hp)
    | some j => rw [routeCell_unique hdisjoint hi (covers_of_get?_ownerOf hget)]

/-! ## What is reported -/

omit hdisjoint in
/-- A gap before a cell of no block, or of the block itself, is passed over. -/
theorem scanGaps_pass {owner : Dict Cell Nat} {i gap : Nat} {c d : Cell} (gaps : List Nat)
    (h : ∀ m ∈ owner.get? (along c d (gap + 1)), m = i) :
    scanGaps owner i c d (gap :: gaps) = scanGaps owner i c d gaps := by
  rw [scanGaps]
  cases hget : owner.get? (along c d (gap + 1)) with
  | none => rfl
  | some m => exact if_pos (h m hget)

omit hdisjoint in
/-- The scan stops before a cell of another block. -/
theorem scanGaps_stop {owner : Dict Cell Nat} {i j gap : Nat} {c d : Cell} (gaps : List Nat)
    (hget : owner.get? (along c d (gap + 1)) = some j) (hj : j ≠ i) :
    scanGaps owner i c d (gap :: gaps) =
      if (owner.get? (along c d gap)).isSome then none else some (j, gap) := by
  rw [scanGaps, hget, along_add_opposite]
  exact if_neg hj

omit hdisjoint in
/-- The scan from a gap on stops at the first cell of another block, and reports it where the cell
    before is of none. -/
theorem scanGaps_eq_some_iff (owner : Dict Cell Nat) (i j : Nat) (c d : Cell) (g n first : Nat) :
    scanGaps owner i c d (List.range' first n) = some (j, g) ↔
      first ≤ g ∧ g < first + n ∧
        (∀ k : Nat, first ≤ k → k < g → ∀ m ∈ owner.get? (along c d (k + 1)), m = i) ∧
        owner.get? (along c d (g + 1)) = some j ∧ j ≠ i ∧ owner.get? (along c d g) = none := by
  induction n generalizing first with
  | zero =>
    rw [List.range'_zero]
    constructor
    · intro h
      cases h
    · rintro ⟨hle, hlt, -⟩
      omega
  | succ n ih =>
    rw [List.range'_succ]
    by_cases hpass : ∀ m ∈ owner.get? (along c d (first + 1)), m = i
    · rw [scanGaps_pass _ hpass, ih]
      constructor
      · rintro ⟨hle, hlt, hall, hj, hne, hfacing⟩
        refine ⟨by omega, by omega, fun k hk hkg => ?_, hj, hne, hfacing⟩
        rcases Nat.eq_or_lt_of_le hk with rfl | hk
        · exact hpass
        · exact hall k hk hkg
      · rintro ⟨hle, hlt, hall, hj, hne, hfacing⟩
        have hfirst : first ≠ g := by
          rintro rfl
          exact hne (hpass j hj)
        exact ⟨by omega, by omega, fun k hk hkg => hall k (by omega) hkg, hj, hne, hfacing⟩
    · have hstop : first ≤ g → (∀ k : Nat, first ≤ k → k < g →
          ∀ m ∈ owner.get? (along c d (k + 1)), m = i) → g = first := by
        intro hle hall
        by_contra hne
        exact hpass (hall first (le_refl _) (by omega))
      push Not at hpass
      obtain ⟨j', hget, hother⟩ := hpass
      rw [scanGaps_stop _ hget hother]
      constructor
      · intro h
        obtain ⟨hfacing, h⟩ := Option.ite_none_left_eq_some.mp h
        obtain ⟨rfl, rfl⟩ := Prod.mk.inj (Option.some.inj h)
        exact ⟨le_refl _, by omega, fun k hk hkg => by omega, hget, hother,
          Option.not_isSome_iff_eq_none.mp hfacing⟩
      · rintro ⟨hle, -, hall, hj, -, hnone⟩
        obtain rfl := hstop hle hall
        obtain rfl := Option.some.inj (hget.symm.trans hj)
        rw [hnone]
        rfl

omit hdisjoint in
/-- An open end is a cell of a route block, towards a cell that no route block owns. -/
theorem mem_openEnds {placements : List Placed} {i : Nat} {c d : Cell} :
    (i, c, d) ∈ openEnds catalogue placements ↔ d ∈ sideDeltas ∧
      (∃ p, placements[i]? = some p ∧ c ∈ blockCells catalogue p) ∧
      (ownerOf (blockCells catalogue) placements).get? (c + d) = none := by
  unfold openEnds
  simp only [List.mem_flatMap, List.mem_filterMap, Option.ite_none_left_eq_some,
    Option.some.injEq, Prod.mk.injEq, not_or, Option.not_isSome_iff_eq_none]
  constructor
  · rintro ⟨pi, hpi, cell, hcell, d', hd, ⟨-, hfree⟩, rfl, rfl, rfl⟩
    exact ⟨hd, ⟨pi.1, List.mem_zipIdx_iff_getElem?.mp hpi, hcell⟩, hfree⟩
  · rintro ⟨hd, ⟨p, hp, hc⟩, hfree⟩
    exact ⟨(p, i), List.mem_zipIdx_iff_getElem?.mpr hp, c, hc, d, hd,
      ⟨get?_ownerOf_eq_none_iff.mp hfree i p hp, hfree⟩, rfl, rfl, rfl⟩

omit hdisjoint in
theorem mem_foundJumps {placements : List Placed} {i j : Nat} {c d : Cell} {g : Nat} :
    (⟨i, c, d, j, g⟩ : Found) ∈ foundJumps catalogue placements ↔
      (i, c, d) ∈ openEnds catalogue placements ∧
        scanGaps (ownerOf (blockCells catalogue) placements) i c d
          (List.range' 1 maxJumpGap) = some (j, g) := by
  unfold foundJumps
  rw [List.mem_filterMap]
  constructor
  · rintro ⟨e, he, hscan⟩
    obtain ⟨jg, hjg, heq⟩ := Option.map_eq_some_iff.mp hscan
    cases heq
    exact ⟨he, hjg⟩
  · rintro ⟨he, hscan⟩
    exact ⟨(i, c, d), he, by rw [hscan]; rfl⟩

/-- A jump is reported where ends face each other. -/
theorem reports_iff {c d : Cell} (hd : d ∈ sideDeltas) {g : Nat} (hg : 1 ≤ g)
    (hmax : g ≤ maxJumpGap) :
    Reports catalogue rows c d g ↔ ∃ i j, Facing catalogue rows i j c d g := by
  have howner := fun {i c} => get?_ownerOf_iff (i := i) (c := c) hdisjoint
  have hnone : ∀ c, (ownerOf (blockCells catalogue) (routePlacements rows)).get? c = none ↔
      ∀ m, ¬ RouteCell catalogue rows m c := by
    intro c
    rw [Option.eq_none_iff_forall_ne_some]
    exact forall_congr' fun m => not_congr howner
  unfold Reports
  refine exists_congr fun i => exists_congr fun j => ?_
  rw [mem_foundJumps, mem_openEnds, scanGaps_eq_some_iff, howner, hnone, hnone, ← along_one]
  constructor
  · rintro ⟨⟨-, hcell, hopen⟩, -, -, hpass, hland, hne, hfacing⟩
    refine ⟨fun h => hne h.symm, hcell, hland, fun k hk hkg m hm => ?_⟩
    have hfirst : k ≠ 1 := by
      rintro rfl
      exact hopen m hm
    have hlast : k ≠ g := by
      rintro rfl
      exact hfacing m hm
    refine ⟨hpass (k - 1) (by omega) (by omega) m (howner.mpr ?_), hfirst, hlast⟩
    have hpred : (((k - 1 : Nat) : Int) + 1) = k := by omega
    rw [hpred]
    exact hm
  · intro h
    refine ⟨⟨hd, h.takeOff, fun m hm => ?_⟩, hg, by omega, fun k hk hkg m hm => ?_, h.landing,
      fun heq => h.ne heq.symm, fun m hm => ?_⟩
    · exact (h.lane 1 (le_refl _) hg m hm).2.1 rfl
    · refine (h.lane (k + 1) (by omega) (by omega) m ?_).1
      rw [Nat.cast_succ]
      exact howner.mp hm
    · exact (h.lane g hg (le_refl _) m hm).2.2 rfl

omit hdisjoint in
/-- Over air, ends face each other. -/
theorem CrossesAir.facing {c d : Cell} {g : Nat} (h : CrossesAir catalogue rows c d g) :
    ∃ i j, Facing catalogue rows i j c d g := by
  obtain ⟨i, j, hne, hi, hj, hair⟩ := h
  refine ⟨i, j, hne, hi, hj, fun k hk hkg m hm => ?_⟩
  obtain ⟨r, hr, -, hc⟩ := exists_routeCell_iff.mp ⟨m, hm⟩
  exact absurd hc (hair k hk hkg r hr)

omit hdisjoint in
/-- The way over air can be gone back. -/
theorem CrossesAir.back {c d : Cell} {g : Nat} (h : CrossesAir catalogue rows c d g) :
    CrossesAir catalogue rows (along c d (g + 1)) (opposite d) g := by
  obtain ⟨i, j, hne, hi, hj, hair⟩ := h
  refine ⟨j, i, fun heq => hne heq.symm, hj, ?_, fun k hk hkg r hr => ?_⟩
  · rw [along_opposite, sub_self, along_zero]
    exact hi
  · have hback : ((g : Int) + 1 - k) = ((g + 1 - k : Nat) : Int) := by omega
    rw [along_opposite, hback]
    exact hair (g + 1 - k) (by omega) (by omega) r hr

/-- On disjoint footprints the reported jumps cross air and are reported back if and only if the
    lanes between facing ends are clear. -/
theorem jumps_cross_air_iff : JumpsCrossAir catalogue rows ↔ LanesClear catalogue rows := by
  constructor
  · intro hcross i j c d hd g hg hmax hfacing k hk hkg
    have hreports := (reports_iff hdisjoint hd hg hmax).mpr ⟨i, j, hfacing⟩
    obtain ⟨-, -, -, -, -, hair⟩ := ((hcross c d hd g hg hmax).1).mp hreports
    refine ⟨fun hi => ?_, fun r hr _ => hair k hk hkg r hr⟩
    obtain ⟨r, hr, -, hc⟩ := exists_routeCell_iff.mp ⟨i, hi⟩
    exact hair k hk hkg r hr hc
  · intro hclear c d hd g hg hmax
    have hiff : Reports catalogue rows c d g ↔ CrossesAir catalogue rows c d g := by
      rw [reports_iff hdisjoint hd hg hmax]
      constructor
      · rintro ⟨i, j, hfacing⟩
        refine ⟨i, j, hfacing.ne, hfacing.takeOff, hfacing.landing, fun k hk hkg r hr hc => ?_⟩
        obtain ⟨hown, hother⟩ := hclear i j c d hd g hg hmax hfacing k hk hkg
        cases hroute : isRoute r.name with
        | false => exact hother r hr hroute hc
        | true =>
          obtain ⟨m, hm⟩ := exists_routeCell_iff.mpr ⟨r, hr, hroute, hc⟩
          have hmi := (hfacing.lane k hk hkg m hm).1
          rw [hmi] at hm
          exact hown hm
      · exact CrossesAir.facing
    refine ⟨hiff, fun hreports => ?_⟩
    refine (reports_iff hdisjoint (opposite_mem_sideDeltas hd) hg hmax).mpr ?_
    exact (hiff.mp hreports).back.facing

end Lanes

/-! ## Two roads -/

/-- Two roads in line, two cells apart. -/
def twoRoads : List Placed :=
  [⟨"RoadTechStraight", 0, ⟨0, 9, 0⟩⟩, ⟨"RoadTechStraight", 2, ⟨0, 9, 3⟩⟩]

/-- The gap between two roads is a jump over air. -/
theorem two_roads_cross_air : JumpsCrossAir Dict.empty twoRoads := by
  refine (jumps_cross_air_iff (by unfold DisjointFootprints; decide)).mpr ?_
  intro i j c d hd g hg hmax hfacing k hk hkg
  refine ⟨fun hown => ?_, fun r hr hroute => ?_⟩
  · -- Without a catalogue a block covers its own cell only.
    obtain ⟨p, hp, hc⟩ := hfacing.takeOff
    obtain ⟨q, hq, hlane⟩ := hown
    obtain rfl := Option.some.inj (hp.symm.trans hq)
    have hcells : blockCells (Dict.empty : Dict String BlockDef) p =
        [p.pos + ⟨0, 0, 0⟩] := rfl
    rw [hcells, List.mem_singleton] at hc hlane
    have heq : along c d k = along c d 0 := by rw [hlane, along_zero, hc]
    simp only [along, Cell.mk.injEq] at heq
    simp only [sideDeltas, faceDelta, List.mem_cons, List.not_mem_nil, or_false] at hd
    rcases hd with rfl | rfl | rfl | rfl <;> (dsimp only at heq; omega)
  · have hall : ∀ r ∈ twoRoads, isRoute r.name = true := by decide
    rw [hall r hr] at hroute
    cases hroute

/-- The gap between two roads around a pillar is reported as well. -/
theorem pillar_jumped :
    let rows : List Placed := [⟨"RoadTechStraight", 0, ⟨0, 9, 0⟩⟩, ⟨"StructurePillar", 0, ⟨0, 9, 1⟩⟩,
      ⟨"RoadTechStraight", 0, ⟨0, 9, 2⟩⟩]
    DisjointFootprints Dict.empty rows ∧ Reports Dict.empty rows ⟨0, 9, 0⟩ ⟨0, 0, 1⟩ 1 ∧
      ¬ JumpsCrossAir Dict.empty rows := by
  intro rows
  have hreports : Reports Dict.empty rows ⟨0, 9, 0⟩ ⟨0, 0, 1⟩ 1 := ⟨0, 1, by decide⟩
  refine ⟨by unfold DisjointFootprints; decide, hreports, fun h => ?_⟩
  obtain ⟨-, -, -, -, -, hair⟩ :=
    (h ⟨0, 9, 0⟩ ⟨0, 0, 1⟩ (by decide) 1 (le_refl _) (by decide)).1.mp hreports
  exact hair 1 (le_refl _) (le_refl _) ⟨"StructurePillar", 0, ⟨0, 9, 1⟩⟩ (by decide) (by decide)

/-- A gate of two posts: from the near one the scan passes over the far one, and the road behind
    reports another gap back. -/
example :
    let gate : BlockDef := ⟨"GateStart", "", [⟨"ground", 0, ⟨1, 1, 3⟩,
      [⟨⟨0, 0, 0⟩, Dict.empty⟩, ⟨⟨0, 0, 2⟩, Dict.empty⟩]⟩]⟩
    (foundJumps ⟨[("GateStart", gate)], by decide⟩
        (routePlacements [⟨"GateStart", 0, ⟨0, 9, 0⟩⟩, ⟨"RoadTechStraight", 0, ⟨0, 9, 4⟩⟩])).map
      (fun f => (f.cell.z, f.direction.z, f.gap)) = [(0, 1, 3), (2, 1, 1), (4, -1, 1)] := by
  decide

end TraxMania.RouteJumps
