import TraxMania.Corridor.MapReads
import TraxMania.Driven.BlockMatcher
import Mathlib.Algebra.Field.Rat
import Mathlib.Algebra.Order.Floor.Ring
import Mathlib.Tactic.Linarith
import Mathlib.Tactic.Ring

/-
  Does a free waypoint snap to the cell it is in? Snapping measures to `y * 8 + 4`, where the
  matcher's `to_cell` has the centre of level `y` at `(y - 8) * 8 + 4`: 64 metres lower. The search
  therefore looks around a point 64 metres below the waypoint, and only a drivable cell at most
  sixteen levels further down can win over the waypoint's own.

  Coordinates are exact: rational numbers, and one infinity for `float("inf")`.
-/

namespace TraxMania.Corridor

open TraxMania.Grid TraxMania.Driven Lib

/-! ## Exact coordinates -/

/-- A rational number or `float("inf")`, which is `none`. -/
abbrev Exact := Option ℚ

/-- `<`. -/
def Exact.lt : Exact → Exact → Bool
  | some a, some b => decide (a < b)
  | some _, none => true
  | none, _ => false

instance exactOps : FloatOps Exact where
  add := Option.map₂ (· + ·)
  sub := Option.map₂ (· - ·)
  mul := Option.map₂ (· * ·)
  intCast n := some (n : ℚ)
  lt := Exact.lt
  inf := none

/-- A waypoint with rational coordinates as the code takes it. -/
def FreeWaypoint.exact (w : FreeWaypoint ℚ) : FreeWaypoint Exact :=
  ⟨w.tag, w.waypointOrder, some w.ax, some w.ay, some w.az⟩

/-- The squared distance that snapping measures. -/
def snapDist (w : FreeWaypoint ℚ) (c : Cell) : ℚ :=
  (w.ax - (32 * c.x + 16)) * (w.ax - (32 * c.x + 16)) +
    (w.ay - (8 * c.y + 4)) * (w.ay - (8 * c.y + 4)) +
    (w.az - (32 * c.z + 16)) * (w.az - (32 * c.z + 16))

theorem blockCenter_exact (g half : Int) :
    (blockCenter g half : Exact) = some ((g : ℚ) * ((2 * half : Int) : ℚ) + (half : ℚ)) := rfl

theorem squaredDistance_exact (w : FreeWaypoint ℚ) (c : Cell) :
    squaredDistance w.exact c = some (snapDist w c) := by
  have hx : (c.x : ℚ) * ((2 * 16 : Int) : ℚ) + ((16 : Int) : ℚ) = 32 * c.x + 16 := by
    push_cast; ring
  have hy : (c.y : ℚ) * ((2 * 4 : Int) : ℚ) + ((4 : Int) : ℚ) = 8 * c.y + 4 := by
    push_cast; ring
  have hz : (c.z : ℚ) * ((2 * 16 : Int) : ℚ) + ((16 : Int) : ℚ) = 32 * c.z + 16 := by
    push_cast; ring
  unfold squaredDistance
  rw [blockCenter_exact, blockCenter_exact, blockCenter_exact, hx, hy, hz]
  rfl

/-! ## The search -/

/-- The best distance and cell so far, from the cell alone. -/
def bestOf (w : FreeWaypoint ℚ) : Option Cell → Best Exact
  | none => ⟨none, none⟩
  | some c => ⟨some (snapDist w c), some c⟩

theorem bestOf_cell (w : FreeWaypoint ℚ) (o : Option Cell) : (bestOf w o).cell = o := by
  cases o with
  | none => rfl
  | some c => rfl

/-- One comparison is one step of `List.argmin`. -/
theorem closer_bestOf (w : FreeWaypoint ℚ) (o : Option Cell) (c : Cell) :
    (bestOf w o).closer (squaredDistance w.exact c) c =
      bestOf w (List.argAux (fun b d => snapDist w b < snapDist w d) o c) := by
  rw [squaredDistance_exact]
  cases o with
  | none => rfl
  | some d =>
    have hlt : FloatOps.lt (some (snapDist w c) : Exact) (some (snapDist w d)) =
        decide (snapDist w c < snapDist w d) := rfl
    unfold Best.closer
    show (if FloatOps.lt (some (snapDist w c) : Exact) (some (snapDist w d)) = true then _ else _) =
      bestOf w (if snapDist w c < snapDist w d then some c else some d)
    rw [hlt]
    by_cases h : snapDist w c < snapDist w d
    · rw [if_pos (decide_eq_true h), if_pos h]
      rfl
    · rw [if_neg (by simpa using h), if_neg h]

/-- `classify_family(cell_to_family.get(cell, ""))` is drivable. -/
def drivableAt (families : Dict Cell String) (c : Cell) : Bool :=
  decide (classifyFamily ((families.get? c).getD "") = .drivable)

/-- The cells that the search prefers, in the order of the list. -/
def drivableCells (cells : List Cell) (families : Dict Cell String) : List Cell :=
  cells.filter (drivableAt families)

theorem foldl_snapStep (families : Dict Cell String) (w : FreeWaypoint ℚ) (cells : List Cell)
    (o o' : Option Cell) :
    cells.foldl (snapStep families w.exact) (bestOf w o, bestOf w o') =
      (bestOf w ((drivableCells cells families).foldl
          (List.argAux fun b d => snapDist w b < snapDist w d) o),
        bestOf w (cells.foldl (List.argAux fun b d => snapDist w b < snapDist w d) o')) := by
  induction cells generalizing o o' with
  | nil => rfl
  | cons c cells ih =>
    rw [List.foldl_cons, snapStep, closer_bestOf, closer_bestOf, drivableCells, List.filter_cons]
    by_cases h : drivableAt families c = true
    · rw [if_pos (of_decide_eq_true h), if_pos h]
      exact ih _ _
    · have h' : ¬classifyFamily ((families.get? c).getD "") = .drivable := by
        simpa [drivableAt] using h
      rw [if_neg h', if_neg h]
      exact ih _ _

/-- Snapping takes the first of the nearest drivable cells, else the first of the nearest. -/
theorem snapCell_exact (cells : List Cell) (families : Dict Cell String) (w : FreeWaypoint ℚ) :
    snapCell cells families w.exact =
      ((drivableCells cells families).argmin (snapDist w)).or (cells.argmin (snapDist w)) := by
  have hfold := foldl_snapStep families w cells none none
  unfold snapCell
  show (List.foldl (snapStep families w.exact) (bestOf w none, bestOf w none) cells).1.cell.or
    (List.foldl (snapStep families w.exact) (bestOf w none, bestOf w none) cells).2.cell = _
  rw [hfold, bestOf_cell, bestOf_cell]
  rfl

/-! ## The cell a waypoint is in -/

/-- Where a waypoint is. -/
def FreeWaypoint.position (w : FreeWaypoint ℚ) : Point ℚ := ⟨w.ax, w.ay, w.az⟩

/-- A position lies in a cell of the calibrated grid, on none of its faces. -/
structure StrictlyInside (p : Point ℚ) (c : Cell) : Prop where
  cell : toCell p = c
  offX : p.x ≠ 32 * c.x
  offY : p.y ≠ 8 * (c.y - 8)
  offZ : p.z ≠ 32 * c.z

/-- The squared horizontal distance of a waypoint to the middle of a cell. -/
def horizontalSq (w : FreeWaypoint ℚ) (c : Cell) : ℚ :=
  (w.ax - (32 * c.x + 16)) * (w.ax - (32 * c.x + 16)) +
    (w.az - (32 * c.z + 16)) * (w.az - (32 * c.z + 16))

/-- How far a waypoint is above the middle of the level of a cell. -/
def heightAbove (w : FreeWaypoint ℚ) (c : Cell) : ℚ := w.ay - (8 * (c.y - 8) + 4)

/-- Two cells compared: what the levels take off for the lower one, against what it is farther
    away horizontally. -/
theorem snapDist_sub (w : FreeWaypoint ℚ) (c d : Cell) :
    snapDist w d - snapDist w c = horizontalSq w d - horizontalSq w c -
      16 * (c.y - d.y) * (64 - 4 * (c.y - d.y) - heightAbove w c) := by
  unfold snapDist horizontalSq heightAbove
  ring

theorem floor_div_bounds {q s : ℚ} (hs : 0 < s) {n : Int} (h : (q / s).floor = n) :
    s * n ≤ q ∧ q < s * (n + 1) := by
  have hfloor : ⌊q / s⌋ = n := h
  obtain ⟨hlow, hup⟩ := Int.floor_eq_iff.mp hfloor
  rw [le_div_iff₀ hs] at hlow
  rw [div_lt_iff₀ hs] at hup
  constructor
  · linarith
  · linarith

namespace StrictlyInside

variable {w : FreeWaypoint ℚ} {c : Cell}

theorem x_mem (h : StrictlyInside w.position c) : 32 * (c.x : ℚ) < w.ax ∧ w.ax < 32 * c.x + 32 := by
  have hfloor : (w.ax / ((32 : Int) : ℚ)).floor = c.x := congrArg Cell.x h.cell
  obtain ⟨hlow, hup⟩ := floor_div_bounds (by norm_num) hfloor
  have hne : w.ax ≠ 32 * c.x := h.offX
  push_cast at hlow hup
  constructor
  · exact lt_of_le_of_ne hlow hne.symm
  · linarith

theorem z_mem (h : StrictlyInside w.position c) : 32 * (c.z : ℚ) < w.az ∧ w.az < 32 * c.z + 32 := by
  have hfloor : (w.az / ((32 : Int) : ℚ)).floor = c.z := congrArg Cell.z h.cell
  obtain ⟨hlow, hup⟩ := floor_div_bounds (by norm_num) hfloor
  have hne : w.az ≠ 32 * c.z := h.offZ
  push_cast at hlow hup
  constructor
  · exact lt_of_le_of_ne hlow hne.symm
  · linarith

theorem height_mem (h : StrictlyInside w.position c) :
    -4 < heightAbove w c ∧ heightAbove w c < 4 := by
  have hfloor : (((9 : Int) : ℚ) + (w.ay - ((8 : Int) : ℚ)) / ((8 : Int) : ℚ)).floor = c.y :=
    congrArg Cell.y h.cell
  have hscale : ((9 : Int) : ℚ) + (w.ay - ((8 : Int) : ℚ)) / ((8 : Int) : ℚ) = (w.ay + 64) / 8 := by
    push_cast
    ring
  rw [hscale] at hfloor
  obtain ⟨hlow, hup⟩ := floor_div_bounds (by norm_num) hfloor
  have hne : w.ay ≠ 8 * (c.y - 8) := h.offY
  have hlow' : 8 * ((c.y : ℚ) - 8) < w.ay := lt_of_le_of_ne (by linarith) hne.symm
  unfold heightAbove
  constructor
  · linarith
  · linarith

end StrictlyInside

/-! ## What wins over the cell -/

/-- On one axis the middle of the own cell is nearer than any other. -/
theorem axis_lt {p : ℚ} {m n : Int} (hlow : 32 * (m : ℚ) < p) (hup : p < 32 * m + 32)
    (hne : m ≠ n) :
    (p - (32 * m + 16)) * (p - (32 * m + 16)) < (p - (32 * n + 16)) * (p - (32 * n + 16)) := by
  have hdiff : (p - (32 * n + 16)) * (p - (32 * n + 16)) - (p - (32 * m + 16)) * (p - (32 * m + 16))
      = 64 * ((m - n) * (p - (32 * m + 16) + 16 * (m - n))) := by ring
  have hpos : 0 < ((m : ℚ) - n) * (p - (32 * m + 16) + 16 * (m - n)) := by
    rcases lt_or_gt_of_ne hne with hlt | hgt
    · have hstep : (m : ℚ) + 1 ≤ n := by exact_mod_cast hlt
      exact mul_pos_of_neg_of_neg (by linarith) (by linarith)
    · have hstep : (n : ℚ) + 1 ≤ m := by exact_mod_cast hgt
      exact mul_pos (by linarith) (by linarith)
  linarith

theorem axis_le {p : ℚ} {m : Int} (hlow : 32 * (m : ℚ) < p) (hup : p < 32 * m + 32) (n : Int) :
    (p - (32 * m + 16)) * (p - (32 * m + 16)) ≤ (p - (32 * n + 16)) * (p - (32 * n + 16)) := by
  by_cases h : m = n
  · rw [h]
  · exact le_of_lt (axis_lt hlow hup h)

variable {w : FreeWaypoint ℚ} {c d : Cell}

theorem horizontalSq_le (h : StrictlyInside w.position c) (d : Cell) :
    horizontalSq w c ≤ horizontalSq w d :=
  add_le_add (axis_le h.x_mem.1 h.x_mem.2 d.x) (axis_le h.z_mem.1 h.z_mem.2 d.z)

theorem horizontalSq_lt (h : StrictlyInside w.position c) (hne : c.x ≠ d.x ∨ c.z ≠ d.z) :
    horizontalSq w c < horizontalSq w d := by
  rcases hne with hx | hz
  · exact add_lt_add_of_lt_of_le (axis_lt h.x_mem.1 h.x_mem.2 hx)
      (axis_le h.z_mem.1 h.z_mem.2 d.z)
  · exact add_lt_add_of_le_of_lt (axis_le h.x_mem.1 h.x_mem.2 d.x)
      (axis_lt h.z_mem.1 h.z_mem.2 hz)

/-- What the levels take off is nothing for a cell above, or far below. -/
theorem level_neg (h : StrictlyInside w.position c) (hy : c.y < d.y ∨ d.y + 16 < c.y) :
    16 * ((c.y : ℚ) - d.y) * (64 - 4 * (c.y - d.y) - heightAbove w c) < 0 := by
  obtain ⟨hlow, hup⟩ := h.height_mem
  rcases hy with hlt | hgt
  · have hstep : (c.y : ℚ) + 1 ≤ d.y := by exact_mod_cast hlt
    exact mul_neg_of_neg_of_pos (by linarith) (by linarith)
  · have hstep : (d.y : ℚ) + 17 ≤ c.y := by
      have hint : d.y + 17 ≤ c.y := by omega
      exact_mod_cast hint
    exact mul_neg_of_pos_of_neg (by linarith) (by linarith)

/-- Only cells one to sixteen levels below can be as near as the own cell. -/
theorem snapDist_lt (h : StrictlyInside w.position c) (hne : c ≠ d)
    (hy : ¬(1 ≤ c.y - d.y ∧ c.y - d.y ≤ 16)) : snapDist w c < snapDist w d := by
  have hsub := snapDist_sub w c d
  by_cases hlevel : c.y = d.y
  · have hside : c.x ≠ d.x ∨ c.z ≠ d.z := by
      by_contra hsame
      push Not at hsame
      exact hne (Cell.ext hsame.1 hlevel hsame.2)
    have hlt := horizontalSq_lt h hside
    rw [hlevel, sub_self, mul_zero, zero_mul] at hsub
    linarith
  · have hle := horizontalSq_le h d
    have hneg := level_neg (d := d) h (by omega)
    linarith

/-- A cell below does not win over `c`: it is farther away by more than the levels between take
    off, or as near and listed later. -/
def OutOfReach (preferred : List Cell) (w : FreeWaypoint ℚ) (c d : Cell) : Prop :=
  16 * ((c.y : ℚ) - d.y) * (64 - 4 * (c.y - d.y) - heightAbove w c) <
      horizontalSq w d - horizontalSq w c ∨
    16 * ((c.y : ℚ) - d.y) * (64 - 4 * (c.y - d.y) - heightAbove w c) =
        horizontalSq w d - horizontalSq w c ∧
      preferred.idxOf c < preferred.idxOf d

theorem outOfReach_iff {preferred : List Cell} :
    OutOfReach preferred w c d ↔ snapDist w c < snapDist w d ∨
      snapDist w c = snapDist w d ∧ preferred.idxOf c < preferred.idxOf d := by
  have hsub := snapDist_sub w c d
  unfold OutOfReach
  refine or_congr ?_ (and_congr_left' ?_)
  · constructor
    · intro h
      linarith
    · intro h
      linarith
  · constructor
    · intro h
      linarith
    · intro h
      linarith

/-- The waypoint's own cell wins exactly when no cell one to sixteen levels below is in reach. -/
theorem argmin_eq_iff {preferred : List Cell} (hc : c ∈ preferred)
    (h : StrictlyInside w.position c) :
    preferred.argmin (snapDist w) = some c ↔
      ∀ d ∈ preferred, 1 ≤ c.y - d.y → c.y - d.y ≤ 16 → OutOfReach preferred w c d := by
  rw [List.argmin_eq_some_iff]
  constructor
  · intro ⟨_, hleast, hfirst⟩ d hd hlow _
    rw [outOfReach_iff]
    rcases lt_or_eq_of_le (hleast d hd) with hlt | heq
    · exact Or.inl hlt
    · have hle := hfirst d hd heq.ge
      have hne : preferred.idxOf c ≠ preferred.idxOf d := by
        intro hidx
        have hcd : c = d := (List.idxOf_inj hc).mp hidx
        rw [hcd] at hlow
        omega
      exact Or.inr ⟨heq, by omega⟩
  · intro hreach
    have hbest : ∀ d ∈ preferred, c ≠ d → snapDist w c < snapDist w d ∨
        snapDist w c = snapDist w d ∧ preferred.idxOf c < preferred.idxOf d := by
      intro d hd hne
      by_cases hy : 1 ≤ c.y - d.y ∧ c.y - d.y ≤ 16
      · exact outOfReach_iff.mp (hreach d hd hy.1 hy.2)
      · exact Or.inl (snapDist_lt h hne hy)
    refine ⟨hc, fun d hd => ?_, fun d hd hle => ?_⟩
    · by_cases hne : c = d
      · rw [hne]
      · rcases hbest d hd hne with hlt | ⟨heq, _⟩
        · exact le_of_lt hlt
        · exact le_of_eq heq
    · by_cases hne : c = d
      · rw [hne]
      · rcases hbest d hd hne with hlt | ⟨_, hidx⟩
        · exact absurd hle (not_le.mpr hlt)
        · exact le_of_lt hidx

/-! ## The rows -/

/-- The row of a waypoint snapped to a cell. -/
def snappedRow (w : FreeWaypoint ℚ) (c : Cell) : WaypointRow :=
  ⟨some w.tag, w.waypointOrder, some c.x, some c.y, some c.z⟩

theorem snappedRow_inj {w : FreeWaypoint ℚ} {c d : Cell} (h : snappedRow w c = snappedRow w d) :
    c = d := by
  unfold snappedRow at h
  simp only [WaypointRow.mk.injEq, Option.some.injEq, true_and] at h
  exact Cell.ext h.1 h.2.1 h.2.2

/-- With a drivable cell on the map every waypoint has its row. -/
theorem snap_getElem? {cells : List Cell} {families : Dict Cell String} {c : Cell}
    (hc : c ∈ drivableCells cells families) (free : List (FreeWaypoint ℚ)) (i : Nat) :
    (snapFreeWaypointsToGrid (free.map FreeWaypoint.exact) cells families)[i]? =
      free[i]?.bind fun w =>
        ((drivableCells cells families).argmin (snapDist w)).map (snappedRow w) := by
  have hsome : ∀ w : FreeWaypoint ℚ,
      ∃ d, (drivableCells cells families).argmin (snapDist w) = some d := by
    intro w
    refine Option.ne_none_iff_exists'.mp fun hnone => ?_
    rw [List.argmin_eq_none] at hnone
    rw [hnone] at hc
    exact List.not_mem_nil hc
  choose nearest hnearest using hsome
  have hrow : ∀ w : FreeWaypoint ℚ, (snapCell cells families w.exact).map (fun d =>
      (⟨some w.exact.tag, w.exact.waypointOrder, some d.x, some d.y, some d.z⟩ : WaypointRow)) =
      some (snappedRow w (nearest w)) := by
    intro w
    rw [snapCell_exact, hnearest]
    rfl
  have hmap : snapFreeWaypointsToGrid (free.map FreeWaypoint.exact) cells families =
      free.map fun w => snappedRow w (nearest w) := by
    unfold snapFreeWaypointsToGrid
    rw [List.filterMap_map]
    have hfun : ((fun w => (snapCell cells families w).map fun d =>
        (⟨some w.tag, w.waypointOrder, some d.x, some d.y, some d.z⟩ : WaypointRow)) ∘
          FreeWaypoint.exact) = some ∘ fun w => snappedRow w (nearest w) :=
      funext hrow
    rw [hfun, List.filterMap_eq_map]
  rw [hmap, List.getElem?_map]
  cases free[i]? with
  | none => rfl
  | some w =>
    rw [Option.bind_some, hnearest]
    rfl

/-! ## Snapping home -/

/-- Every waypoint strictly inside a drivable occupied cell is snapped to that cell. -/
def SnapsHome (cells : List Cell) (families : Dict Cell String) (free : List (FreeWaypoint ℚ)) :
    Prop :=
  ∀ (i : Nat) (w : FreeWaypoint ℚ) (c : Cell), free[i]? = some w →
    c ∈ drivableCells cells families → StrictlyInside w.position c →
    (snapFreeWaypointsToGrid (free.map FreeWaypoint.exact) cells families)[i]? =
      some (snappedRow w c)

/-- The waypoints snap home exactly when no drivable cell one to sixteen levels below the cell of
    a waypoint is in its reach. -/
theorem snaps_home_iff (cells : List Cell) (families : Dict Cell String)
    (free : List (FreeWaypoint ℚ)) :
    SnapsHome cells families free ↔
      ∀ w ∈ free, ∀ c ∈ drivableCells cells families, StrictlyInside w.position c →
        ∀ d ∈ drivableCells cells families, 1 ≤ c.y - d.y → c.y - d.y ≤ 16 →
          OutOfReach (drivableCells cells families) w c d := by
  have hone : ∀ (i : Nat) (w : FreeWaypoint ℚ) (c : Cell), free[i]? = some w →
      c ∈ drivableCells cells families →
      ((snapFreeWaypointsToGrid (free.map FreeWaypoint.exact) cells families)[i]? =
        some (snappedRow w c) ↔
          (drivableCells cells families).argmin (snapDist w) = some c) := by
    intro i w c hw hc
    rw [snap_getElem? hc, hw, Option.bind_some, Option.map_eq_some_iff]
    constructor
    · intro ⟨d, hd, hrow⟩
      rw [hd, snappedRow_inj hrow]
    · intro hd
      exact ⟨c, hd, rfl⟩
  constructor
  · intro hhome w hw c hc hin
    obtain ⟨i, hi⟩ := List.mem_iff_getElem?.mp hw
    exact (argmin_eq_iff hc hin).mp ((hone i w c hi hc).mp (hhome i w c hi hc hin))
  · intro hreach i w c hi hc hin
    have hw : w ∈ free := List.mem_iff_getElem?.mpr ⟨i, hi⟩
    exact (hone i w c hi hc).mpr ((argmin_eq_iff hc hin).mpr (hreach w hw c hc hin))

/-- Two roads, one on the other. -/
def stackedCells : List Cell := [⟨0, 9, 0⟩, ⟨0, 10, 0⟩]

/-- Their families. -/
def stackedFamilies : Dict Cell String :=
  ⟨[(⟨0, 9, 0⟩, "Road"), (⟨0, 10, 0⟩, "Road")], by decide⟩

/-- A waypoint in the middle of the upper one, 20 metres up. -/
def upperWaypoint : FreeWaypoint ℚ := ⟨"Checkpoint", 0, 16, 20, 16⟩

/-- The waypoint in the upper road goes to the lower one. -/
theorem lower_road_taken :
    ¬∀ cells families free, SnapsHome cells families free := by
  intro hall
  have hin : StrictlyInside upperWaypoint.position ⟨0, 10, 0⟩ :=
    ⟨by decide +kernel, by decide +kernel, by decide +kernel, by decide +kernel⟩
  have hrow := hall stackedCells stackedFamilies [upperWaypoint] 0 upperWaypoint ⟨0, 10, 0⟩ rfl
    (by decide +kernel) hin
  have hlevel := congrArg (Option.map WaypointRow.y) hrow
  revert hlevel
  decide +kernel

end TraxMania.Corridor
