import TraxMania.Constraints.OffsetTable
import Mathlib.Data.Finset.Lattice.Fold
import Mathlib.Order.Lattice.Nat

/-
  `constraints/route_sequences.py`: the local three-block runs of a map, blocks on opposing sides of
  a block between them, and the pair and triple keys that are mined from them. Every run is found
  from both of its ends, and its ends come in the order of the rows.
-/

namespace TraxMania.Constraints.RouteSequences

open TraxMania.Grid TraxMania.Catalogue Lib

/-! ## Placements -/

/-- A placement `(name, rotation, x, y, z)`. -/
structure Placed where
  name : String
  rotation : Int
  pos : Cell
deriving DecidableEq

/-- `_SUPPORT_MARKERS`. -/
def supportMarkers : List String :=
  ["Pillar", "TrackWall", "DecoWall", "Structure", "Canopy", "Technics", "Grass"]

/-- `_IS_SUPPORT`. -/
def isSupport (name : String) : Bool :=
  supportMarkers.any fun marker => decide (marker.toList <:+: name.toList)

/-- `placements`. -/
def placementsOf (rows : List Placed) : List Placed :=
  (rows.filter fun r => !isSupport r.name).map fun r => { r with rotation := r.rotation % 4 }

/-- The world cells of a placement; a block without a ground variant covers its own cell. -/
def blockCells (catalogue : Dict String BlockDef) (p : Placed) : List Cell :=
  let cells : List Cell :=
    match (catalogue.get? p.name).bind fun block => block.variant "ground" 0 with
    | some variant => variant.units.map fun u => rotateOffset u.offset p.rotation variant.size
    | none => [⟨0, 0, 0⟩]
  cells.map fun c => p.pos + c

/-! ## Links -/

section Links

variable (catalogue : Dict String BlockDef) (placements : List Placed)

/-- `cell_owner`. -/
def cellOwner : Dict Cell (List Nat) :=
  (placements.zipIdx.flatMap fun pi => (blockCells catalogue pi.1).map fun c => (c, pi.2)).foldl
    (fun owners ci => owners.upsert ci.1 fun old => old.getD [] ++ [ci.2]) Dict.empty

/-- `*FACE_DELTAS.values(), (0, 1, 0), (0, -1, 0)`. -/
def contactDeltas : List Cell :=
  [faceDelta 0, faceDelta 1, faceDelta 2, faceDelta 3, ⟨0, 1, 0⟩, ⟨0, -1, 0⟩]

/-- The pairs `(i, j)` of the nested loops over `cell_owner`. -/
def contacts (owner : Dict Cell (List Nat)) : List (Nat × Nat) :=
  owner.items.flatMap fun kv => contactDeltas.flatMap fun d =>
    ((owner.get? (kv.1 + d)).getD []).flatMap fun j => kv.2.map fun i => (i, j)

/-- `links[i].add(j)` and `links[j].add(i)`. -/
def addLink (links : Dict Nat (Finset Nat)) (ij : Nat × Nat) : Dict Nat (Finset Nat) :=
  if ij.1 ≠ ij.2 then
    (links.upsert ij.1 fun old => insert ij.2 (old.getD ∅)).upsert ij.2
      fun old => insert ij.1 (old.getD ∅)
  else links

/-- `links`. -/
def links : Dict Nat (Finset Nat) :=
  (contacts (cellOwner catalogue placements)).foldl addLink Dict.empty

end Links

/-! ## Runs -/

/-- The order in which the set of the neighbours of the block at an index is iterated. -/
structure SetOrder where
  list : List Placed → Nat → Finset Nat → List Nat
  nodup : ∀ placements i s, (list placements i s).Nodup
  mem : ∀ placements i s j, j ∈ list placements i s ↔ j ∈ s

/-- `step`: the signs of the way from `mid` to `other`. -/
def signStep (mid other : Placed) : Cell :=
  ⟨(other.pos.x - mid.pos.x).sign, (other.pos.y - mid.pos.y).sign, (other.pos.z - mid.pos.z).sign⟩

/-- `back`. -/
def opposite (step : Cell) : Cell := ⟨-step.x, -step.y, -step.z⟩

/-- `[before, middle, after]`. -/
structure Run where
  before : Placed
  middle : Placed
  after : Placed
deriving DecidableEq

section Runs

variable (order : SetOrder) (catalogue : Dict String BlockDef) (placements : List Placed)

/-- `by_dir`: the first neighbour in each direction. -/
def byDir (i : Nat) (mid : Placed) (neighbours : Finset Nat) : Dict Cell Nat :=
  ((order.list placements i neighbours).filterMap fun j =>
    (placements[j]?).map fun other => (signStep mid other, j)).foldl
      (fun dirs sj => dirs.setdefault sj.1 sj.2) Dict.empty

/-- The run of an item `(step, before)` of `by_dir`, where the opposite direction has a neighbour
    too. -/
def runOf (dirs : Dict Cell Nat) (mid : Placed) (sb : Cell × Nat) : Option Run :=
  match dirs.get? (opposite sb.1) with
  | none => none
  | some after =>
    if after = sb.2 then none
    else do
      -- The ends are sorted by their places in the list.
      let lo ← placements[min sb.2 after]?
      let hi ← placements[max sb.2 after]?
      some ⟨lo, mid, hi⟩

/-- The turn of the loop at the block `mid` with index `i`. -/
def runsAt (i : Nat) (mid : Placed) : List Run :=
  match (links catalogue placements).get? i with
  | none => []
  | some neighbours =>
    if neighbours.card < 2 then []
    else
      let dirs := byDir order placements i mid neighbours
      dirs.items.filterMap (runOf placements dirs mid)

end Runs

/-- `reconstruct_route`. -/
def reconstructRoute (order : SetOrder) (catalogue : Dict String BlockDef) (rows : List Placed) :
    Option (List Run) :=
  let placements := placementsOf rows
  let chains := placements.zipIdx.flatMap fun pi => runsAt order catalogue placements pi.2 pi.1
  if chains = [] then none else some chains

/-! ## Keys -/

/-- `_step`. -/
def step (a b : Placed) : Cell × Int :=
  (localOffset (b.pos - a.pos) a.rotation, (b.rotation - a.rotation) % 4)

/-- A key of `counts`. -/
structure SeqKey where
  n : Nat
  a : String
  b : String
  c : String
  d1 : Cell
  rel1 : Int
  d2 : Cell
  rel2 : Int
deriving DecidableEq

/-- `pair`. -/
def pairKey (r : Run) : SeqKey :=
  let first := step r.before r.middle
  ⟨2, r.before.name, r.middle.name, "", first.1, first.2, ⟨0, 0, 0⟩, 0⟩

/-- `trip`. -/
def tripleKey (r : Run) : SeqKey :=
  let first := step r.before r.middle
  let second := step r.middle r.after
  ⟨3, r.before.name, r.middle.name, r.after.name, first.1, first.2, second.1, second.2⟩

/-- The keys that `build_sequences` counts for one map. -/
def keysOf (order : SetOrder) (catalogue : Dict String BlockDef) (rows : List Placed) :
    Multiset SeqKey :=
  ((reconstructRoute order catalogue rows).getD []).flatMap fun r => [pairKey r, tripleKey r]

/-! ## Face contact -/

/-- Two blocks touch: a cell of the one has a face in common with a cell of the other. -/
def Touch (catalogue : Dict String BlockDef) (p q : Placed) : Prop :=
  ∃ c ∈ blockCells catalogue p, ∃ c' ∈ blockCells catalogue q,
    (c'.x - c.x).natAbs + (c'.y - c.y).natAbs + (c'.z - c.z).natAbs = 1

section Contact

variable {catalogue : Dict String BlockDef} {placements : List Placed}

theorem mem_contactDeltas {d : Cell} :
    d ∈ contactDeltas ↔ d.x.natAbs + d.y.natAbs + d.z.natAbs = 1 := by
  rw [Cell.natAbs_eq_one_iff]
  simp only [contactDeltas, faceDelta, List.mem_cons, List.not_mem_nil, or_false]
  constructor
  · intro h
    rcases h with rfl | rfl | rfl | rfl | rfl | rfl <;> decide
  · intro h
    rcases h with rfl | rfl | rfl | rfl | rfl | rfl <;> decide

theorem Touch.symm {p q : Placed} (h : Touch catalogue p q) : Touch catalogue q p := by
  obtain ⟨c, hc, c', hc', hdist⟩ := h
  exact ⟨c', hc', c, hc, by omega⟩

theorem touch_iff {p q : Placed} : Touch catalogue p q ↔
    ∃ c ∈ blockCells catalogue p, ∃ d ∈ contactDeltas, c + d ∈ blockCells catalogue q := by
  unfold Touch
  constructor
  · intro ⟨c, hc, c', hc', hdist⟩
    refine ⟨c, hc, c' - c, mem_contactDeltas.mpr hdist, ?_⟩
    rwa [Cell.add_sub_of]
  · intro ⟨c, hc, d, hd, hcd⟩
    refine ⟨c, hc, c + d, hcd, ?_⟩
    have hdist := mem_contactDeltas.mp hd
    simp only [Cell.add_x, Cell.add_y, Cell.add_z]
    omega

/-- The owners of a cell are the blocks that cover it. -/
theorem mem_cellOwner {c : Cell} {i : Nat} :
    i ∈ ((cellOwner catalogue placements).get? c).getD [] ↔
      ∃ p, placements[i]? = some p ∧ c ∈ blockCells catalogue p := by
  unfold cellOwner
  rw [Dict.getD_get?_foldl_group]
  have hempty : ((Dict.empty : Dict Cell (List Nat)).get? c).getD [] = [] := rfl
  rw [hempty, List.nil_append, List.mem_map]
  constructor
  · intro ⟨ci, hci, hi⟩
    obtain ⟨hci, hc⟩ := List.mem_filter.mp hci
    obtain ⟨pi, hpi, hmap⟩ := List.mem_flatMap.mp hci
    obtain ⟨c', hc', rfl⟩ := List.mem_map.mp hmap
    rw [List.mem_zipIdx_iff_getElem?] at hpi
    obtain rfl : c' = c := of_decide_eq_true hc
    subst hi
    exact ⟨pi.1, hpi, hc'⟩
  · intro ⟨p, hp, hc⟩
    refine ⟨(c, i), List.mem_filter.mpr ⟨?_, decide_eq_true rfl⟩, rfl⟩
    refine List.mem_flatMap.mpr ⟨(p, i), List.mem_zipIdx_iff_getElem?.mpr hp, ?_⟩
    exact List.mem_map.mpr ⟨c, hc, rfl⟩

/-- The loops meet the pairs of blocks that touch. -/
theorem mem_contacts {i j : Nat} :
    (i, j) ∈ contacts (cellOwner catalogue placements) ↔
      ∃ p q, placements[i]? = some p ∧ placements[j]? = some q ∧ Touch catalogue p q := by
  have hloops : (i, j) ∈ contacts (cellOwner catalogue placements) ↔
      ∃ c, ∃ d ∈ contactDeltas, i ∈ ((cellOwner catalogue placements).get? c).getD [] ∧
        j ∈ ((cellOwner catalogue placements).get? (c + d)).getD [] := by
    unfold contacts
    simp only [List.mem_flatMap, List.mem_map, Prod.mk.injEq]
    constructor
    · intro h
      obtain ⟨kv, hkv, d, hd, j', hj', i', hi', rfl, rfl⟩ := h
      refine ⟨kv.1, d, hd, ?_, hj'⟩
      rw [Dict.get?_eq_some hkv]
      exact hi'
    · intro h
      obtain ⟨c, d, hd, hi, hj⟩ := h
      cases hget : (cellOwner catalogue placements).get? c with
      | none =>
        rw [hget] at hi
        cases hi
      | some owners =>
        rw [hget] at hi
        exact ⟨(c, owners), Dict.mem_items_of_get? hget, d, hd, j, hj, i, hi, rfl, rfl⟩
  rw [hloops]
  simp only [mem_cellOwner, touch_iff]
  constructor
  · intro h
    obtain ⟨c, d, hd, ⟨p, hp, hc⟩, q, hq, hcd⟩ := h
    exact ⟨p, q, hp, hq, c, hc, d, hd, hcd⟩
  · intro h
    obtain ⟨p, q, hp, hq, c, hc, d, hd, hcd⟩ := h
    exact ⟨c, d, hd, ⟨p, hp, hc⟩, q, hq, hcd⟩

/-- `j` is linked to `i`. -/
def Linked (l : Dict Nat (Finset Nat)) (i j : Nat) : Prop := j ∈ (l.get? i).getD ∅

theorem linked_upsert {l : Dict Nat (Finset Nat)} {a b i j : Nat} :
    Linked (l.upsert a fun old => insert b (old.getD ∅)) i j ↔ Linked l i j ∨ i = a ∧ j = b := by
  unfold Linked
  rw [Dict.get?_upsert]
  by_cases hi : i = a
  · subst hi
    rw [if_pos rfl, Option.getD_some, Finset.mem_insert, or_comm, and_iff_right rfl]
  · rw [if_neg hi, or_iff_left fun h => hi h.1]

theorem linked_addLink {l : Dict Nat (Finset Nat)} {ab : Nat × Nat} {i j : Nat} :
    Linked (addLink l ab) i j ↔ Linked l i j ∨ i ≠ j ∧ (ab = (i, j) ∨ ab = (j, i)) := by
  obtain ⟨a, b⟩ := ab
  unfold addLink
  simp only [Prod.mk.injEq]
  by_cases hne : a ≠ b
  · rw [if_pos hne, linked_upsert, linked_upsert, or_assoc]
    refine or_congr_right ?_
    omega
  · have hnone : ¬ (i ≠ j ∧ (a = i ∧ b = j ∨ a = j ∧ b = i)) := by omega
    rw [if_neg hne, or_iff_left hnone]

/-- The links after the loop: both ways for each pair it meets. -/
theorem linked_foldl {ijs : List (Nat × Nat)} {l : Dict Nat (Finset Nat)} {i j : Nat} :
    Linked (ijs.foldl addLink l) i j ↔
      Linked l i j ∨ i ≠ j ∧ ((i, j) ∈ ijs ∨ (j, i) ∈ ijs) := by
  induction ijs generalizing l with
  | nil => simp
  | cons ab ijs ih =>
    rw [List.foldl_cons, ih, linked_addLink, List.mem_cons, List.mem_cons]
    have hcomm : (ab = (i, j) ↔ (i, j) = ab) ∧ (ab = (j, i) ↔ (j, i) = ab) :=
      ⟨eq_comm, eq_comm⟩
    rw [hcomm.1, hcomm.2, or_assoc, ← and_or_left, or_or_or_comm]

/-- Two blocks are linked where they touch. -/
theorem linked_links {i j : Nat} :
    Linked (links catalogue placements) i j ↔
      i ≠ j ∧ ∃ p q, placements[i]? = some p ∧ placements[j]? = some q ∧ Touch catalogue p q := by
  have hempty : ¬ Linked Dict.empty i j := Finset.notMem_empty j
  unfold links
  rw [linked_foldl, mem_contacts, mem_contacts, or_iff_right hempty]
  constructor
  · intro ⟨hne, h⟩
    rcases h with h | ⟨p, q, hp, hq, htouch⟩
    · exact ⟨hne, h⟩
    · exact ⟨hne, q, p, hq, hp, htouch.symm⟩
  · intro ⟨hne, h⟩
    exact ⟨hne, Or.inl h⟩

end Contact

/-! ## The neighbours of a block by direction -/

theorem opposite_opposite (d : Cell) : opposite (opposite d) = d := by
  simp [opposite]

theorem opposite_ne {d : Cell} (hd : d ≠ ⟨0, 0, 0⟩) : opposite d ≠ d := by
  obtain ⟨x, y, z⟩ := d
  simp only [opposite, ne_eq, Cell.mk.injEq] at hd ⊢
  omega

theorem opposite_ne_zero {d : Cell} (hd : d ≠ ⟨0, 0, 0⟩) : opposite d ≠ ⟨0, 0, 0⟩ := by
  obtain ⟨x, y, z⟩ := d
  simp only [opposite, ne_eq, Cell.mk.injEq] at hd ⊢
  omega

theorem signStep_self (p : Placed) : signStep p p = ⟨0, 0, 0⟩ := by
  simp [signStep]

/-- A block that touches `mid` in the direction `d`. -/
def HasNeighbour (catalogue : Dict String BlockDef) (placements : List Placed) (mid : Placed)
    (d : Cell) : Prop :=
  ∃ p ∈ placements, Touch catalogue mid p ∧ signStep mid p = d

section Directions

variable {order : SetOrder} {catalogue : Dict String BlockDef} {placements : List Placed}
variable {i : Nat} {mid : Placed} {neighbours : Finset Nat}

theorem get?_byDir {d : Cell} {j : Nat}
    (h : (byDir order placements i mid neighbours).get? d = some j) :
    j ∈ neighbours ∧ ∃ p, placements[j]? = some p ∧ signStep mid p = d := by
  unfold byDir at h
  rw [Dict.get?_foldl_setdefault, Option.map_eq_some_iff] at h
  obtain ⟨sj, hfind, rfl⟩ := h
  have hstep := List.find?_some hfind
  obtain ⟨j, hj, hsj⟩ := List.mem_filterMap.mp (List.mem_of_find?_eq_some hfind)
  obtain ⟨p, hp, rfl⟩ := Option.map_eq_some_iff.mp hsj
  exact ⟨(order.mem placements i neighbours j).mp hj, p, hp, of_decide_eq_true hstep⟩

theorem exists_get?_byDir_of_mem {j : Nat} {p : Placed} (hj : j ∈ neighbours)
    (hp : placements[j]? = some p) :
    ∃ j', (byDir order placements i mid neighbours).get? (signStep mid p) = some j' := by
  unfold byDir
  rw [Dict.get?_foldl_setdefault]
  have hmem : (signStep mid p, j) ∈ (order.list placements i neighbours).filterMap fun j =>
      (placements[j]?).map fun other => (signStep mid other, j) := by
    refine List.mem_filterMap.mpr ⟨j, (order.mem placements i neighbours j).mpr hj, ?_⟩
    rw [hp]
    rfl
  cases hfind : ((order.list placements i neighbours).filterMap fun j =>
      (placements[j]?).map fun other => (signStep mid other, j)).find?
        fun sj => decide (sj.1 = signStep mid p) with
  | some sj => exact ⟨sj.2, rfl⟩
  | none => exact absurd (decide_eq_true rfl) (List.find?_eq_none.mp hfind _ hmem)

/-- A neighbour in a direction is another block, and linked. -/
theorem HasNeighbour.exists_linked (hmid : placements[i]? = some mid) {d : Cell}
    (hd : d ≠ ⟨0, 0, 0⟩) (h : HasNeighbour catalogue placements mid d) :
    ∃ j p, placements[j]? = some p ∧ signStep mid p = d ∧
      Linked (links catalogue placements) i j := by
  obtain ⟨p, hmem, htouch, hstep⟩ := h
  obtain ⟨j, hp⟩ := List.mem_iff_getElem?.mp hmem
  have hne : i ≠ j := by
    intro hij
    subst hij
    obtain rfl := Option.some.inj (hmid.symm.trans hp)
    exact hd (hstep.symm.trans (signStep_self mid))
  exact ⟨j, p, hp, hstep, linked_links.mpr ⟨hne, mid, p, hmid, hp, htouch⟩⟩

variable (order) in
/-- `by_dir` has a direction just where a block touches `mid` in it. -/
theorem exists_get?_byDir (hmid : placements[i]? = some mid)
    (hget : (links catalogue placements).get? i = some neighbours) {d : Cell}
    (hd : d ≠ ⟨0, 0, 0⟩) :
    (∃ j, (byDir order placements i mid neighbours).get? d = some j) ↔
      HasNeighbour catalogue placements mid d := by
  have hlinked : ∀ j, j ∈ neighbours ↔ Linked (links catalogue placements) i j := by
    intro j
    unfold Linked
    rw [hget, Option.getD_some]
  constructor
  · intro ⟨j, hj⟩
    obtain ⟨hmem, p, hp, hstep⟩ := get?_byDir hj
    obtain ⟨hne, mid', p', hmid', hp', htouch⟩ := linked_links.mp ((hlinked j).mp hmem)
    obtain rfl := Option.some.inj (hmid.symm.trans hmid')
    obtain rfl := Option.some.inj (hp.symm.trans hp')
    exact ⟨p, List.mem_of_getElem? hp, htouch, hstep⟩
  · intro hneighbour
    obtain ⟨j, p, hp, hstep, hlink⟩ := hneighbour.exists_linked hmid hd
    rw [← hstep]
    exact exists_get?_byDir_of_mem ((hlinked j).mpr hlink) hp

end Directions

/-! ## The runs of a block -/

/-- The run lies along the direction `d` or its opposite. -/
def Run.along (d : Cell) (r : Run) : Bool :=
  decide (signStep r.middle r.before = d ∨ signStep r.middle r.before = opposite d)

section RunsOf

variable {placements : List Placed} {dirs : Dict Cell Nat} {mid : Placed}

/-- Both items of a pair of opposite directions give the same run. -/
theorem runOf_opposite {d : Cell} {j j' : Nat} (hj : dirs.get? d = some j)
    (hj' : dirs.get? (opposite d) = some j') :
    runOf placements dirs mid (opposite d, j') = runOf placements dirs mid (d, j) := by
  unfold runOf
  rw [opposite_opposite, hj, hj']
  dsimp only
  rw [min_comm, max_comm]
  by_cases h : j = j'
  · rw [if_pos h, if_pos h.symm]
  · rw [if_neg h, if_neg fun e => h e.symm]

variable (hdirs : ∀ {d j}, dirs.get? d = some j → ∃ p, placements[j]? = some p ∧ signStep mid p = d)
include hdirs

/-- The blocks of two opposite directions differ. -/
theorem ne_of_opposite {d : Cell} (hd : d ≠ ⟨0, 0, 0⟩) {j j' : Nat} (hj : dirs.get? d = some j)
    (hj' : dirs.get? (opposite d) = some j') : j' ≠ j := by
  intro h
  subst h
  obtain ⟨p, hp, hstep⟩ := hdirs hj
  obtain ⟨p', hp', hstep'⟩ := hdirs hj'
  obtain rfl := Option.some.inj (hp.symm.trans hp')
  exact opposite_ne hd (hstep'.symm.trans hstep)

/-- Two opposite directions have a run. -/
theorem exists_runOf {d : Cell} (hd : d ≠ ⟨0, 0, 0⟩) {j j' : Nat} (hj : dirs.get? d = some j)
    (hj' : dirs.get? (opposite d) = some j') :
    ∃ r, runOf placements dirs mid (d, j) = some r := by
  obtain ⟨p, hp, hstep⟩ := hdirs hj
  obtain ⟨p', hp', hstep'⟩ := hdirs hj'
  unfold runOf
  rw [hj']
  dsimp only
  rw [if_neg (ne_of_opposite hdirs hd hj hj')]
  rcases Nat.le_total j j' with h | h
  · rw [min_eq_left h, max_eq_right h, hp, hp']
    exact ⟨⟨p, mid, p'⟩, rfl⟩
  · rw [min_eq_right h, max_eq_left h, hp, hp']
    exact ⟨⟨p', mid, p⟩, rfl⟩

/-- A run lies along the direction it was found in. -/
theorem runOf_along {d : Cell} {j : Nat} (hj : dirs.get? d = some j) {r : Run}
    (hr : runOf placements dirs mid (d, j) = some r) :
    signStep r.middle r.before = d ∨ signStep r.middle r.before = opposite d := by
  obtain ⟨p, hp, hstep⟩ := hdirs hj
  unfold runOf at hr
  cases hj' : dirs.get? (opposite d) with
  | none =>
    rw [hj'] at hr
    cases hr
  | some j' =>
    obtain ⟨p', hp', hstep'⟩ := hdirs hj'
    rw [hj'] at hr
    dsimp only at hr
    by_cases hne : j' = j
    · rw [if_pos hne] at hr
      cases hr
    · rw [if_neg hne] at hr
      rcases Nat.le_total j j' with h | h
      · rw [min_eq_left h, max_eq_right h, hp, hp'] at hr
        obtain rfl := Option.some.inj hr
        exact Or.inl hstep
      · rw [min_eq_right h, max_eq_left h, hp, hp'] at hr
        obtain rfl := Option.some.inj hr
        exact Or.inr hstep'

/-- Only the items of two opposite directions give runs along them. -/
theorem dir_of_along {d : Cell} {sj : Cell × Nat} (hsj : sj ∈ dirs.items) {r : Run}
    (hr : runOf placements dirs mid sj = some r) (halong : r.along d = true) :
    sj.1 = d ∨ sj.1 = opposite d := by
  have halong := of_decide_eq_true halong
  rcases runOf_along hdirs (Dict.get?_eq_some hsj) hr with h | h
  · rw [h] at halong
    exact halong
  · rw [h] at halong
    rcases halong with h' | h'
    · exact Or.inr (by rw [← h', opposite_opposite])
    · exact Or.inl (by rw [← opposite_opposite sj.1, h', opposite_opposite])

/-- Where two opposite directions have a block each, the run between them comes out twice, once
    from each end. -/
theorem filter_along_runs {d : Cell} (hd : d ≠ ⟨0, 0, 0⟩) {j j' : Nat}
    (hj : dirs.get? d = some j) (hj' : dirs.get? (opposite d) = some j') :
    ∃ r, (dirs.items.filterMap (runOf placements dirs mid)).filter (Run.along d) = [r, r] := by
  obtain ⟨r, hr⟩ := exists_runOf hdirs hd hj hj'
  have hr' : runOf placements dirs mid (opposite d, j') = some r := (runOf_opposite hj hj').trans hr
  have halong : r.along d = true := decide_eq_true (runOf_along hdirs hj hr)
  have hends := Dict.perm_filter_pair (fun h => opposite_ne hd h.symm) hj hj'
  refine ⟨r, (List.perm_replicate (n := 2)).mp ?_⟩
  have honly : (dirs.items.filterMap fun sj =>
      (runOf placements dirs mid sj).filter (Run.along d)) =
      (dirs.items.filter fun sj => decide (sj.1 = d ∨ sj.1 = opposite d)).filterMap
        fun sj => (runOf placements dirs mid sj).filter (Run.along d) := by
    rw [List.filterMap_filter]
    refine List.filterMap_congr fun sj hsj => ?_
    by_cases h : sj.1 = d ∨ sj.1 = opposite d
    · rw [if_pos (decide_eq_true h)]
    · rw [if_neg (by simpa using h)]
      cases hrun : runOf placements dirs mid sj with
      | none => rfl
      | some r' =>
        rw [Option.filter_some, if_neg fun ha => h (dir_of_along hdirs hsj hrun ha)]
  have hboth : [(d, j), (opposite d, j')].filterMap
      (fun sj => (runOf placements dirs mid sj).filter (Run.along d)) = [r, r] := by
    simp [hr, hr', halong, Option.filter]
  rw [List.filter_filterMap, honly]
  show List.Perm _ [r, r]
  rw [← hboth]
  exact hends.filterMap _

end RunsOf

section RunsAt

variable {catalogue : Dict String BlockDef} {placements : List Placed} {i : Nat} {mid : Placed}

/-- A block between two others emits the run of the three of them twice. -/
theorem runsAt_twice (order : SetOrder) (hmid : placements[i]? = some mid) {d : Cell}
    (hd : d ≠ ⟨0, 0, 0⟩) (hahead : HasNeighbour catalogue placements mid d)
    (hbehind : HasNeighbour catalogue placements mid (opposite d)) :
    ∃ r, (runsAt order catalogue placements i mid).filter (Run.along d) = [r, r] := by
  unfold runsAt
  cases hget : (links catalogue placements).get? i with
  | none =>
    obtain ⟨j, p, hp, hstep, hlink⟩ := hahead.exists_linked hmid hd
    unfold Linked at hlink
    rw [hget] at hlink
    cases hlink
  | some neighbours =>
    obtain ⟨j, hj⟩ := (exists_get?_byDir order hmid hget hd).mpr hahead
    obtain ⟨j', hj'⟩ := (exists_get?_byDir order hmid hget (opposite_ne_zero hd)).mpr hbehind
    have hne := ne_of_opposite (fun h => (get?_byDir h).2) hd hj hj'
    have hcard : 1 < neighbours.card :=
      Finset.one_lt_card.mpr ⟨j', (get?_byDir hj').1, j, (get?_byDir hj).1, hne⟩
    dsimp only
    rw [if_neg (by omega)]
    exact filter_along_runs (fun h => (get?_byDir h).2) hd hj hj'

/-- A block that lies between no two others emits no run. -/
theorem runsAt_eq_nil (order : SetOrder) (hmid : placements[i]? = some mid)
    (hnone : ∀ d ≠ ⟨0, 0, 0⟩, HasNeighbour catalogue placements mid d →
      ¬ HasNeighbour catalogue placements mid (opposite d)) :
    runsAt order catalogue placements i mid = [] := by
  unfold runsAt
  cases hget : (links catalogue placements).get? i with
  | none => rfl
  | some neighbours =>
    dsimp only
    split
    · rfl
    · rw [List.filterMap_eq_nil_iff]
      intro sj hsj
      have hj := Dict.get?_eq_some hsj
      unfold runOf
      cases hj' : (byDir order placements i mid neighbours).get? (opposite sj.1) with
      | none => rfl
      | some j' =>
        dsimp only
        by_cases hne : j' = sj.2
        · rw [if_pos hne]
        · have hd : sj.1 ≠ ⟨0, 0, 0⟩ := by
            intro h
            rw [h] at hj hj'
            exact hne (Option.some.inj (hj'.symm.trans hj))
          have hahead := (exists_get?_byDir order hmid hget hd).mp ⟨sj.2, hj⟩
          have hbehind := (exists_get?_byDir order hmid hget (opposite_ne_zero hd)).mp ⟨j', hj'⟩
          exact absurd hbehind (hnone sj.1 hd hahead)

end RunsAt

/-! ## One run, one key -/

/-- Somewhere in the map a block lies between two others. -/
def HasRun (catalogue : Dict String BlockDef) (rows : List Placed) : Prop :=
  ∃ mid ∈ placementsOf rows, ∃ d : Cell, d ≠ ⟨0, 0, 0⟩ ∧
    HasNeighbour catalogue (placementsOf rows) mid d ∧
      HasNeighbour catalogue (placementsOf rows) mid (opposite d)

/-- The run the other way round. -/
def Run.reverse (r : Run) : Run := ⟨r.after, r.middle, r.before⟩

/-- The runs that `build_sequences` is given. -/
def chainsOf (order : SetOrder) (catalogue : Dict String BlockDef) (rows : List Placed) :
    List Run :=
  (reconstructRoute order catalogue rows).getD []

/-- Every physical run is mined once, whatever the order of the rows. -/
structure MinedOnce (order : SetOrder) (catalogue : Dict String BlockDef) (rows : List Placed) :
    Prop where
  emitsOnce : ∀ i mid, (placementsOf rows)[i]? = some mid → ∀ d ≠ ⟨0, 0, 0⟩,
    HasNeighbour catalogue (placementsOf rows) mid d →
      HasNeighbour catalogue (placementsOf rows) mid (opposite d) →
        ((runsAt order catalogue (placementsOf rows) i mid).filter (Run.along d)).length = 1
  orderFree : ∀ rows', rows'.Perm rows → keysOf order catalogue rows' = keysOf order catalogue rows
  reverseFree : keysOf order catalogue rows.reverse = keysOf order catalogue rows
  oneKey : ∀ rows', rows'.Perm rows → ∀ r ∈ chainsOf order catalogue rows,
    r.reverse ∈ chainsOf order catalogue rows' →
      pairKey r.reverse = pairKey r ∧ tripleKey r.reverse = tripleKey r

theorem HasRun.of_perm {catalogue : Dict String BlockDef} {rows rows' : List Placed}
    (hperm : rows'.Perm rows) (h : HasRun catalogue rows') : HasRun catalogue rows := by
  have hmem : ∀ p, p ∈ placementsOf rows' ↔ p ∈ placementsOf rows := fun p =>
    ((hperm.filter _).map _).mem_iff
  unfold HasRun HasNeighbour at h ⊢
  simpa only [hmem] using h

/-- A map in which no block lies between two others has no runs. -/
theorem reconstructRoute_eq_none (order : SetOrder) {catalogue : Dict String BlockDef}
    {rows : List Placed} (h : ¬ HasRun catalogue rows) :
    reconstructRoute order catalogue rows = none := by
  unfold reconstructRoute
  refine if_pos (List.flatMap_eq_nil_iff.mpr fun pi hpi => ?_)
  have hmid := List.mem_zipIdx_iff_getElem?.mp hpi
  refine runsAt_eq_nil order hmid fun d hd hahead hbehind => ?_
  exact h ⟨pi.1, List.mem_of_getElem? hmid, d, hd, hahead, hbehind⟩

/-- Runs are mined once just in the maps that have none: any other run comes out twice. -/
theorem minedOnce_iff (order : SetOrder) (catalogue : Dict String BlockDef) (rows : List Placed) :
    MinedOnce order catalogue rows ↔ ¬ HasRun catalogue rows := by
  constructor
  · intro hmined ⟨mid, hmem, d, hd, hahead, hbehind⟩
    obtain ⟨i, hmid⟩ := List.mem_iff_getElem?.mp hmem
    have hone := hmined.emitsOnce i mid hmid d hd hahead hbehind
    obtain ⟨r, htwice⟩ := runsAt_twice order hmid hd hahead hbehind
    rw [htwice] at hone
    cases hone
  · intro hnone
    have hkeys : ∀ rows', rows'.Perm rows → keysOf order catalogue rows' = 0 := by
      intro rows' hperm
      unfold keysOf
      rw [reconstructRoute_eq_none order fun h => hnone (h.of_perm hperm)]
      rfl
    have hfree : ∀ rows', rows'.Perm rows →
        keysOf order catalogue rows' = keysOf order catalogue rows := fun rows' hperm => by
      rw [hkeys rows' hperm, hkeys rows (List.Perm.refl rows)]
    refine ⟨?_, hfree, hfree _ (List.reverse_perm rows), ?_⟩
    · intro i mid hmid d hd hahead hbehind
      exact absurd ⟨mid, List.mem_of_getElem? hmid, d, hd, hahead, hbehind⟩ hnone
    · intro rows' _ r hr
      unfold chainsOf at hr
      rw [reconstructRoute_eq_none order hnone] at hr
      cases hr

/-! ### Three blocks in a row -/

/-- Small integers come out of a set in ascending order. -/
def ascending : SetOrder where
  list _ _ s := (List.range (s.sup id + 1)).filter fun j => decide (j ∈ s)
  nodup _ _ _ := List.nodup_range.filter _
  mem _ _ s j := by
    rw [List.mem_filter, List.mem_range, decide_eq_true_iff, Nat.lt_succ_iff]
    exact and_iff_right_of_imp fun hj => Finset.le_sup (f := id) hj

/-- Three blocks in a row. -/
def threeRows : List Placed :=
  [⟨"RoadTechStraight", 0, ⟨24, 9, 24⟩⟩, ⟨"RoadTechCheckpoint", 0, ⟨24, 9, 25⟩⟩,
    ⟨"RoadTechCurve1", 0, ⟨24, 9, 26⟩⟩]

/-- Their run comes out twice, and other keys when the rows are listed in reverse. -/
theorem threeRows_mined_twice :
    let run : Run := ⟨⟨"RoadTechStraight", 0, ⟨24, 9, 24⟩⟩, ⟨"RoadTechCheckpoint", 0, ⟨24, 9, 25⟩⟩,
      ⟨"RoadTechCurve1", 0, ⟨24, 9, 26⟩⟩⟩
    reconstructRoute ascending Dict.empty threeRows = some [run, run] ∧
      reconstructRoute ascending Dict.empty threeRows.reverse = some [run.reverse, run.reverse] ∧
      tripleKey run.reverse ≠ tripleKey run ∧
      keysOf ascending Dict.empty threeRows.reverse ≠ keysOf ascending Dict.empty threeRows ∧
      ¬ MinedOnce ascending Dict.empty threeRows := by
  have hkeys : keysOf ascending Dict.empty threeRows.reverse ≠
      keysOf ascending Dict.empty threeRows := by decide +kernel
  refine ⟨by decide +kernel, by decide +kernel, by decide, hkeys, ?_⟩
  exact fun hmined => hkeys hmined.reverseFree

end TraxMania.Constraints.RouteSequences
