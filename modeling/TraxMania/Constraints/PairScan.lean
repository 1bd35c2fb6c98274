import Mathlib.Data.Finset.Card
import Mathlib.Data.Fintype.Basic
import Mathlib.Data.Fintype.Prod
import TraxMania.Constraints.OffsetTable
import TraxMania.Lib.Numpy

/-
  The vectorised scan for neighbour pairs of one map: cells packed into one `int64`, one
  sort-merge join per offset of the neighbourhood, keys packed and counted.
-/

namespace TraxMania.Constraints

open TraxMania.Grid TraxMania.Catalogue Lib.Numpy Lib.SortBy

/-- `_TYPE_BITS`. -/
def typeBits : Nat := 17
/-- `_MAX_TYPES`. -/
def maxTypes : Nat := 2 ^ 17

/-- One row of the arrays `type_idx`, `rot`, `x`, `y`, `z`. -/
structure Row where
  typeIdx : Fin maxTypes
  rot : Fin 4
  pos : Cell
deriving DecidableEq

/-- `bias`. -/
def bias : Int := 2 ^ 19

/-- `cell`, for one placement. -/
def packCell (c : Cell) : Int :=
  int64 ((c.x + bias) * 2 ^ 40 + (c.y + bias) * 2 ^ 20 + (c.z + bias))

/-- `shift`. -/
def shift (off : Cell) : Int := off.x * 2 ^ 40 + off.y * 2 ^ 20 + off.z

/-- `_pack_keys`, for one pair. -/
def packKeys (ta tb : Nat) (relRot : Int) (storedOi nOff : Nat) : Int :=
  int64 ((((ta <<< typeBits ||| tb : Nat) : Int) * 4 + relRot) * nOff + storedOi)

/-- `(rot_b - rot_a) & 3`. -/
def relRotation (p q : Row) : Int := ((q.rot.val : Int) - p.rot.val) % 4

section Scan

variable (ps : List Row) (t : OffsetTable)

/-- `cell`. -/
def cells : List Int := ps.map fun p => packCell p.pos

/-- `order`: `argsort(cell, kind="stable")`. -/
def order : List Nat := sortBy (fun i => (cells ps).getD i 0) (List.range ps.length)

/-- `sorted_cells`. -/
def sortedCells : List Int := takeAt (cells ps) (order ps)

/-- `(a_idx, b_idx)` for one offset, self pairs dropped at the zero offset. -/
def offsetPairs (off : Cell) : List (Nat × Nat) :=
  let target := (cells ps).map fun c => int64 (c + shift off)
  let lo := target.map (searchLeft (sortedCells ps))
  let hi := target.map (searchRight (sortedCells ps))
  let counts := List.zipWith (· - ·) hi lo
  let aIdx := repeatEach (List.range ps.length) counts
  let starts := repeatEach lo counts
  let bIdx := takeAt (order ps) (List.zipWith (· + ·) starts (ranks counts))
  let pairs := aIdx.zip bIdx
  if off.x = 0 ∧ off.y = 0 ∧ off.z = 0 then pairs.filter fun (a, b) => a ≠ b else pairs

/-- The key of a pair whose displacement is `off`. -/
def keyOf (off : Cell) (p q : Row) : Int :=
  packKeys p.typeIdx q.typeIdx (relRotation p q) (t.rotMap p.rot.val off) t.size

/-- The keys `_pack_keys` gives the pairs of one offset. -/
def offsetKeys (off : Cell) : List Int :=
  (offsetPairs ps off).filterMap fun (a, b) =>
    match ps[a]?, ps[b]? with
    | some p, some q => some (keyOf t off p q)
    | _, _ => none

/-- `_map_pairs`: the distinct keys, and how often each comes up. -/
def mapPairs : List Int × List Nat := unique (t.offsets.flatMap (offsetKeys ps t))

end Scan

/-! ## The double loop -/

/-- The second block, of type `B`, lies at the displacement that the first, of type `A`, sees as
`off`, turned by `rel` against it. -/
def Relates (t : OffsetTable) (A B : Fin maxTypes) (rel : Fin 4) (off : Cell) (p q : Row) :
    Prop :=
  p.typeIdx = A ∧ q.typeIdx = B ∧ relRotation p q = rel.val ∧ t.Box (q.pos - p.pos) ∧
    q.pos - p.pos = rotateVector off p.rot.val

instance (t : OffsetTable) (A B : Fin maxTypes) (rel : Fin 4) (off : Cell) (p q : Row) :
    Decidable (Relates t A B rel off p q) :=
  inferInstanceAs (Decidable (_ ∧ _ ∧ _ ∧ _ ∧ _))

/-- The ordered pairs of distinct placements that are so related. -/
def orderedPairs (ps : List Row) (t : OffsetTable) (A B : Fin maxTypes) (rel : Fin 4)
    (off : Cell) : Finset (Fin ps.length × Fin ps.length) :=
  Finset.univ.filter fun ij => ij.1 ≠ ij.2 ∧ Relates t A B rel off (ps.get ij.1) (ps.get ij.2)

/-- The scan gives what the double loop gives: sorted distinct keys, for every key the number of
pairs it stands for, and no key that stands for none. -/
structure ScanExact (ps : List Row) (t : OffsetTable) : Prop where
  sorted : (mapPairs ps t).1.Pairwise (· < ·)
  aligned : (mapPairs ps t).2.length = (mapPairs ps t).1.length
  counted : ∀ (A B : Fin maxTypes) (rel : Fin 4) (off : Cell), t.Box off →
    countAt (mapPairs ps t) (packKeys A B rel.val (t.index off) t.size) =
      (orderedPairs ps t A B rel off).card
  real : ∀ key ∈ (mapPairs ps t).1, ∃ (A B : Fin maxTypes) (rel : Fin 4) (off : Cell),
    t.Box off ∧ key = packKeys A B rel.val (t.index off) t.size ∧
      (orderedPairs ps t A B rel off).Nonempty

/-- `|c| + radius < 2 ^ 19` for every coordinate. -/
def InRange (ps : List Row) (t : OffsetTable) : Prop :=
  ∀ p ∈ ps, p.pos.x.natAbs + t.radiusXz < 2 ^ 19 ∧ p.pos.y.natAbs + t.radiusY < 2 ^ 19 ∧
    p.pos.z.natAbs + t.radiusXz < 2 ^ 19

end TraxMania.Constraints

/-
  The vectorised scan against the double loop. `mem_offsetPairs`: the join of one offset finds the
  pairs at that displacement, each of them once. `count_eq_card`: hence a key comes up as often as
  there are pairs with it. `packKeys_inj`: while the key space fits into 64 bits, a key stands for
  one kind of pair.
-/

namespace TraxMania.Constraints

open TraxMania.Grid TraxMania.Catalogue Lib.Numpy Lib.SortBy

/-! ## Packed cells -/

/-- The coordinates that fit a field with the neighbourhood around them. -/
def Fits (t : OffsetTable) (c : Cell) : Prop :=
  c.x.natAbs + t.radiusXz < 2 ^ 19 ∧ c.y.natAbs + t.radiusY < 2 ^ 19 ∧
    c.z.natAbs + t.radiusXz < 2 ^ 19

/-- Three fields cancel out only when each of them does. -/
theorem fields_eq_zero {x y z : Int} (hy : y.natAbs < 2 ^ 20) (hz : z.natAbs < 2 ^ 20) :
    x * 2 ^ 40 + y * 2 ^ 20 + z = 0 ↔ x = 0 ∧ y = 0 ∧ z = 0 := by
  constructor
  · intro h
    have hz₀ : z = 0 := by omega
    have hy₀ : y = 0 := by omega
    exact ⟨by omega, hy₀, hz₀⟩
  · rintro ⟨rfl, rfl, rfl⟩
    rfl

/-- The coordinates that fit are packed without a carry. -/
theorem packCell_eq {t : OffsetTable} {c : Cell} (hc : Fits t c) :
    packCell c = (c.x + bias) * 2 ^ 40 + (c.y + bias) * 2 ^ 20 + (c.z + bias) := by
  obtain ⟨hx, hy, hz⟩ := hc
  unfold packCell bias
  exact int64_eq_self (by omega) (by omega)

/-- A packed cell, moved by a packed offset, meets only the cell it should. -/
theorem packCell_shift {t : OffsetTable} {c d off : Cell} (hc : Fits t c) (hd : Fits t d)
    (hoff : t.Box off) : packCell d = int64 (packCell c + shift off) ↔ d - c = off := by
  have hfields : d.x - c.x - off.x = 0 ∧ d.y - c.y - off.y = 0 ∧ d.z - c.z - off.z = 0 ↔
      d - c = off := by
    rw [Cell.ext_iff, Cell.sub_x, Cell.sub_y, Cell.sub_z, sub_eq_zero, sub_eq_zero, sub_eq_zero]
  rw [← hfields, packCell_eq hc, packCell_eq hd]
  obtain ⟨hcx, hcy, hcz⟩ := hc
  obtain ⟨hdx, hdy, hdz⟩ := hd
  obtain ⟨hx, hy, hz⟩ := hoff
  unfold shift bias
  rw [int64_eq_self (by omega) (by omega), ← fields_eq_zero (by omega) (by omega)]
  clear hfields hcx hcy hcz hdx hdy hdz hx hy hz
  omega

/-! ## The join of one offset -/

section Join

variable (ps : List Row)

def cellAt (i : Nat) : Int := (cells ps).getD i 0

theorem cellAt_eq {i : Nat} {p : Row} (h : ps[i]? = some p) : cellAt ps i = packCell p.pos := by
  unfold cellAt cells
  rw [List.getD_eq_getElem?_getD, List.getElem?_map, h]
  rfl

theorem cells_eq : cells ps = (List.range ps.length).map (cellAt ps) := by
  refine List.ext_getElem (by simp [cells]) fun i h₁ h₂ => ?_
  rw [List.getElem_map, List.getElem_range]
  unfold cellAt
  rw [List.getD_eq_getElem?_getD, List.getElem?_eq_getElem h₁]
  rfl

theorem mem_order {i : Nat} : i ∈ order ps ↔ i < ps.length := by
  unfold order
  rw [mem_sortBy, List.mem_range]

theorem nodup_order : (order ps).Nodup :=
  (sortBy_perm _ _).nodup_iff.mpr List.nodup_range

theorem order_sorted : (order ps).Pairwise fun i j => cellAt ps i ≤ cellAt ps j :=
  sortBy_pairwise _ _

theorem sortedCells_eq : sortedCells ps = (order ps).map (cellAt ps) := by
  have hsub : ∀ is : List Nat, (∀ i ∈ is, i < ps.length) →
      takeAt (cells ps) is = is.map (cellAt ps) := by
    intro is his
    induction is with
    | nil => rfl
    | cons i is ih =>
      have hi : i < (cells ps).length := by
        unfold cells
        rw [List.length_map]
        exact his i (by simp)
      unfold takeAt at ih ⊢
      rw [List.filterMap_cons, List.getElem?_eq_getElem hi, List.map_cons,
        ← ih fun j hj => his j (by simp [hj])]
      unfold cellAt
      rw [List.getD_eq_getElem?_getD, List.getElem?_eq_getElem hi]
      rfl
  exact hsub _ fun i hi => (mem_order ps).mp hi

/-- The placements in the cell that the placement `a` meets at `off`. -/
def run (off : Cell) (a : Nat) : List Nat :=
  (order ps).filter fun b => cellAt ps b = int64 (cellAt ps a + shift off)

/-- The two index arrays pair every placement with its run. -/
theorem offsetPairs_eq (off : Cell) : offsetPairs ps off =
    let pairs := (List.range ps.length).flatMap fun a => (run ps off a).map fun b => (a, b)
    if off.x = 0 ∧ off.y = 0 ∧ off.z = 0 then pairs.filter fun (a, b) => a ≠ b else pairs := by
  unfold offsetPairs
  dsimp only
  rw [cells_eq, sortedCells_eq]
  simp only [List.map_map, List.zipWith_map, List.zipWith_self]
  have hcount : ∀ a, searchRight ((order ps).map (cellAt ps)) (int64 (cellAt ps a + shift off)) -
      searchLeft ((order ps).map (cellAt ps)) (int64 (cellAt ps a + shift off)) =
      (run ps off a).length := fun a => (run_length (order_sorted ps) _).symm
  have hrun : ∀ a, takeAt (order ps)
      (List.range' (searchLeft ((order ps).map (cellAt ps)) (int64 (cellAt ps a + shift off)))
        (run ps off a).length) = run ps off a := by
    intro a
    rw [takeAt_range', ← hcount, run_eq_filter (order_sorted ps)]
    rfl
  simp only [Function.comp_def, hcount]
  rw [expand_ranges]
  unfold takeAt
  rw [List.filterMap_flatMap]
  have hflat : ((List.range ps.length).flatMap fun a =>
      List.filterMap (fun x => (order ps)[x]?)
        (List.range' (searchLeft ((order ps).map (cellAt ps)) (int64 (cellAt ps a + shift off)))
          (run ps off a).length)) = (List.range ps.length).flatMap (run ps off) :=
    List.flatMap_congr fun a _ => hrun a
  rw [hflat, zip_expand]

theorem mem_run {off : Cell} {a b : Nat} :
    b ∈ run ps off a ↔ b < ps.length ∧ cellAt ps b = int64 (cellAt ps a + shift off) := by
  unfold run
  rw [List.mem_filter, mem_order, decide_eq_true_iff]

theorem mem_pairs {off : Cell} {a b : Nat} :
    (a, b) ∈ (List.range ps.length).flatMap (fun a => (run ps off a).map fun b => (a, b)) ↔
      a < ps.length ∧ b ∈ run ps off a := by
  simp only [List.mem_flatMap, List.mem_range, List.mem_map, Prod.mk.injEq]
  constructor
  · rintro ⟨a', ha', b', hb', rfl, rfl⟩
    exact ⟨ha', hb'⟩
  · rintro ⟨ha, hb⟩
    exact ⟨a, ha, b, hb, rfl, rfl⟩

variable {ps} {t : OffsetTable}

/-- The join of one offset finds the pairs of distinct placements at that displacement. -/
theorem mem_offsetPairs (hps : InRange ps t) {off : Cell} (hoff : t.Box off) {a b : Nat} :
    (a, b) ∈ offsetPairs ps off ↔
      a ≠ b ∧ ∃ p q, ps[a]? = some p ∧ ps[b]? = some q ∧ q.pos - p.pos = off := by
  have hpairs : (a, b) ∈ (List.range ps.length).flatMap (fun a => (run ps off a).map
        fun b => (a, b)) ↔
      ∃ p q, ps[a]? = some p ∧ ps[b]? = some q ∧ q.pos - p.pos = off := by
    rw [mem_pairs, mem_run]
    constructor
    · rintro ⟨ha, hb, hcell⟩
      have hpa := List.getElem?_eq_getElem ha
      have hqb := List.getElem?_eq_getElem hb
      refine ⟨ps[a], ps[b], hpa, hqb, ?_⟩
      rw [cellAt_eq ps hpa, cellAt_eq ps hqb] at hcell
      exact (packCell_shift (hps _ (List.getElem_mem ha)) (hps _ (List.getElem_mem hb)) hoff).mp
        hcell
    · rintro ⟨p, q, hp, hq, hdiff⟩
      obtain ⟨ha, -⟩ := List.getElem?_eq_some_iff.mp hp
      obtain ⟨hb, -⟩ := List.getElem?_eq_some_iff.mp hq
      refine ⟨ha, hb, ?_⟩
      rw [cellAt_eq ps hp, cellAt_eq ps hq]
      exact (packCell_shift (hps p (List.mem_of_getElem? hp)) (hps q (List.mem_of_getElem? hq))
        hoff).mpr hdiff
  rw [offsetPairs_eq]
  dsimp only
  split
  · rw [List.mem_filter, hpairs, decide_eq_true_iff]
    exact and_comm
  · next hne =>
    -- at any other offset a placement is no neighbour of itself
    rw [hpairs]
    refine ⟨fun h => ⟨?_, h⟩, fun h => h.2⟩
    rintro rfl
    obtain ⟨p, q, hp, hq, hdiff⟩ := h
    obtain rfl : p = q := Option.some.inj (hp.symm.trans hq)
    refine hne ?_
    rw [← hdiff]
    simp

theorem nodup_offsetPairs (ps : List Row) (off : Cell) : (offsetPairs ps off).Nodup := by
  have hpairs : ((List.range ps.length).flatMap fun a => (run ps off a).map
      fun b => (a, b)).Nodup := by
    rw [List.nodup_flatMap]
    refine ⟨fun a _ => ?_, List.nodup_range.imp fun hne => ?_⟩
    · exact ((nodup_order ps).filter _).map fun b b' h => congrArg Prod.snd h
    · intro ab hab hab'
      obtain ⟨b, -, rfl⟩ := List.mem_map.mp hab
      obtain ⟨b', -, h⟩ := List.mem_map.mp hab'
      exact hne (congrArg Prod.fst h).symm
  rw [offsetPairs_eq]
  dsimp only
  split
  · exact hpairs.filter _
  · exact hpairs

end Join

/-! ## All offsets -/

section All

variable {ps : List Row} {t : OffsetTable}

/-- The pairs of all offsets, in the order in which the scan finds them. -/
def scanned (ps : List Row) (t : OffsetTable) : List (Nat × Nat) :=
  t.offsets.flatMap (offsetPairs ps)

theorem mem_scanned (hps : InRange ps t) {a b : Nat} : (a, b) ∈ scanned ps t ↔
    a ≠ b ∧ ∃ p q, ps[a]? = some p ∧ ps[b]? = some q ∧ t.Box (q.pos - p.pos) := by
  unfold scanned
  rw [List.mem_flatMap]
  constructor
  · rintro ⟨off, hoff, hab⟩
    have hbox := OffsetTable.mem_offsets.mp hoff
    obtain ⟨hne, p, q, hp, hq, rfl⟩ := (mem_offsetPairs hps hbox).mp hab
    exact ⟨hne, p, q, hp, hq, hbox⟩
  · rintro ⟨hne, p, q, hp, hq, hbox⟩
    exact ⟨q.pos - p.pos, OffsetTable.mem_offsets.mpr hbox,
      (mem_offsetPairs hps hbox).mpr ⟨hne, p, q, hp, hq, rfl⟩⟩

/-- No pair is found at two offsets. -/
theorem nodup_scanned (hps : InRange ps t) : (scanned ps t).Nodup := by
  unfold scanned
  rw [List.nodup_flatMap]
  refine ⟨fun off _ => nodup_offsetPairs ps off, ?_⟩
  refine (OffsetTable.nodup_offsets (t := t)).imp_of_mem fun hoff hoff' hne => ?_
  intro ab hab hab'
  obtain ⟨-, p, q, hp, hq, hdiff⟩ :=
    (mem_offsetPairs hps (OffsetTable.mem_offsets.mp hoff)).mp hab
  obtain ⟨-, p', q', hp', hq', hdiff'⟩ :=
    (mem_offsetPairs hps (OffsetTable.mem_offsets.mp hoff')).mp hab'
  obtain rfl := Option.some.inj (hp.symm.trans hp')
  obtain rfl := Option.some.inj (hq.symm.trans hq')
  exact hne (hdiff.symm.trans hdiff')

/-- The key of a pair, from the placements alone. -/
def pairKey (t : OffsetTable) (p q : Row) : Int := keyOf t (q.pos - p.pos) p q

def keyAt (ps : List Row) (t : OffsetTable) (ab : Nat × Nat) : Option Int :=
  match ps[ab.1]?, ps[ab.2]? with
  | some p, some q => some (pairKey t p q)
  | _, _ => none

/-- The keys of the scan are the keys of the pairs it finds. -/
theorem keys_eq (hps : InRange ps t) :
    t.offsets.flatMap (offsetKeys ps t) = (scanned ps t).filterMap (keyAt ps t) := by
  unfold scanned
  rw [List.filterMap_flatMap]
  refine List.flatMap_congr fun off hoff => ?_
  unfold offsetKeys
  refine List.filterMap_congr fun ⟨a, b⟩ hab => ?_
  obtain ⟨-, p, q, hp, hq, rfl⟩ :=
    (mem_offsetPairs hps (OffsetTable.mem_offsets.mp hoff)).mp hab
  unfold keyAt
  dsimp only
  rw [hp, hq]
  rfl

/-- The pairs of distinct placements in the box that have the given key. -/
def keyedPairs (ps : List Row) (t : OffsetTable) (key : Int) :
    Finset (Fin ps.length × Fin ps.length) :=
  Finset.univ.filter fun ij => ij.1 ≠ ij.2 ∧
    t.Box ((ps.get ij.2).pos - (ps.get ij.1).pos) ∧ pairKey t (ps.get ij.1) (ps.get ij.2) = key

theorem count_filterMap {α : Type*} (f : α → Option Int) (xs : List α) (key : Int) :
    (xs.filterMap f).count key = (xs.filter fun x => f x = some key).length := by
  induction xs with
  | nil => rfl
  | cons x xs ih =>
    rw [List.filterMap_cons, List.filter_cons]
    cases hx : f x with
    | none => simpa using ih
    | some v =>
      by_cases hv : v = key
      · subst hv
        simpa using ih
      · simpa [List.count_cons, hv] using ih

/-- A key comes up as often as there are pairs with it. -/
theorem count_eq_card (hps : InRange ps t) (key : Int) :
    countAt (mapPairs ps t) key = (keyedPairs ps t key).card := by
  unfold mapPairs
  rw [countAt_unique, keys_eq hps, count_filterMap,
    ← List.toFinset_card_of_nodup ((nodup_scanned hps).filter _)]
  -- positions of the list and bounded positions are the same
  have hinj : Function.Injective fun ij : Fin ps.length × Fin ps.length =>
      ((ij.1 : Nat), (ij.2 : Nat)) := by
    intro ij ij' h
    exact Prod.ext (Fin.ext (Prod.mk.inj h).1) (Fin.ext (Prod.mk.inj h).2)
  rw [← Finset.card_image_of_injective (keyedPairs ps t key) hinj]
  congr 1
  ext ⟨a, b⟩
  rw [List.mem_toFinset, List.mem_filter, mem_scanned hps, decide_eq_true_iff, Finset.mem_image]
  constructor
  · rintro ⟨⟨hne, p, q, hp, hq, hbox⟩, hkey⟩
    obtain ⟨ha, rfl⟩ := List.getElem?_eq_some_iff.mp hp
    obtain ⟨hb, rfl⟩ := List.getElem?_eq_some_iff.mp hq
    refine ⟨(⟨a, ha⟩, ⟨b, hb⟩), Finset.mem_filter.mpr ⟨Finset.mem_univ _, ?_, hbox, ?_⟩, rfl⟩
    · exact fun h => hne (congrArg Fin.val h)
    · unfold keyAt at hkey
      rw [hp, hq] at hkey
      exact Option.some.inj hkey
  · rintro ⟨⟨i, j⟩, hij, heq⟩
    obtain ⟨rfl, rfl⟩ := Prod.mk.inj heq
    obtain ⟨-, hne, hbox, hkey⟩ := Finset.mem_filter.mp hij
    have hi : ps[i.val]? = some (ps.get i) := List.getElem?_eq_getElem i.isLt
    have hj : ps[j.val]? = some (ps.get j) := List.getElem?_eq_getElem j.isLt
    refine ⟨⟨fun h => hne (Fin.ext h), _, _, hi, hj, hbox⟩, ?_⟩
    unfold keyAt
    rw [hi, hj]
    exact congrArg some hkey

end All

/-! ## Packed keys -/

/-- The key before it is taken modulo `2 ^ 64`. -/
def plainKey (ta tb : Nat) (relRot : Int) (storedOi nOff : Nat) : Int :=
  ((ta * 2 ^ 17 + tb : Int) * 4 + relRot) * nOff + storedOi

theorem packKeys_eq {ta tb : Nat} (htb : tb < maxTypes) (relRot : Int) (storedOi nOff : Nat) :
    packKeys ta tb relRot storedOi nOff = int64 (plainKey ta tb relRot storedOi nOff) := by
  have hor : ta <<< typeBits ||| tb = ta * 2 ^ 17 + tb := by
    unfold typeBits
    rw [← Nat.shiftLeft_add_eq_or_of_lt htb, Nat.shiftLeft_eq]
  unfold packKeys plainKey
  rw [hor, Int.natCast_add, Int.natCast_mul]
  rfl

/-- Two keys made of the same fields are equal only if the fields are. -/
theorem plainKey_inj {ta tb ta' tb' : Nat} {rel rel' : Int} {oi oi' nOff : Nat}
    (htb : tb < maxTypes) (htb' : tb' < maxTypes) (hrel : 0 ≤ rel ∧ rel < 4)
    (hrel' : 0 ≤ rel' ∧ rel' < 4) (hoi : oi < nOff) (hoi' : oi' < nOff)
    (h : plainKey ta tb rel oi nOff = plainKey ta' tb' rel' oi' nOff) :
    ta = ta' ∧ tb = tb' ∧ rel = rel' ∧ oi = oi' := by
  unfold plainKey at h
  have hpos : (0 : Int) < nOff := by omega
  have hlow : (oi : Int) = oi' := by
    have := congrArg (· % (nOff : Int)) h
    simpa [Int.add_emod, Int.emod_eq_of_lt (Int.natCast_nonneg oi) (by omega : (oi : Int) < nOff),
      Int.emod_eq_of_lt (Int.natCast_nonneg oi') (by omega : (oi' : Int) < nOff)] using this
  have hhigh : ((ta * 2 ^ 17 + tb : Int) * 4 + rel) = ((ta' * 2 ^ 17 + tb' : Int) * 4 + rel') := by
    refine Int.eq_of_mul_eq_mul_right (ne_of_gt hpos) ?_
    rw [hlow] at h
    exact add_right_cancel h
  unfold maxTypes at htb htb'
  omega

theorem plainKey_bounds {ta tb : Nat} {rel : Int} {oi nOff : Nat} (hta : ta < maxTypes)
    (htb : tb < maxTypes) (hrel : 0 ≤ rel ∧ rel < 4) (hoi : oi < nOff) :
    0 ≤ plainKey ta tb rel oi nOff ∧ plainKey ta tb rel oi nOff < 2 ^ 36 * nOff := by
  unfold plainKey
  unfold maxTypes at hta htb
  have hcode : 0 ≤ (ta * 2 ^ 17 + tb : Int) * 4 + rel ∧
      (ta * 2 ^ 17 + tb : Int) * 4 + rel ≤ 2 ^ 36 - 1 := by omega
  have hle := Int.mul_le_mul_of_nonneg_right hcode.2 (Int.natCast_nonneg nOff)
  have hnonneg := Int.mul_nonneg hcode.1 (Int.natCast_nonneg nOff)
  omega

/-- While the key space fits into 64 bits, a key stands for one combination of fields. -/
theorem packKeys_inj {ta tb ta' tb' : Nat} {rel rel' : Int} {oi oi' nOff : Nat}
    (hfit : 2 ^ 36 * nOff ≤ 2 ^ 64) (hta : ta < maxTypes) (htb : tb < maxTypes)
    (hta' : ta' < maxTypes) (htb' : tb' < maxTypes) (hrel : 0 ≤ rel ∧ rel < 4)
    (hrel' : 0 ≤ rel' ∧ rel' < 4) (hoi : oi < nOff) (hoi' : oi' < nOff) :
    packKeys ta tb rel oi nOff = packKeys ta' tb' rel' oi' nOff ↔
      ta = ta' ∧ tb = tb' ∧ rel = rel' ∧ oi = oi' := by
  constructor
  · intro h
    rw [packKeys_eq htb, packKeys_eq htb', int64_eq_iff] at h
    have hb := plainKey_bounds hta htb hrel hoi
    have hb' := plainKey_bounds hta' htb' hrel' hoi'
    refine plainKey_inj htb htb' hrel hrel' hoi hoi' ?_
    have hfit' : (2 ^ 36 * nOff : Int) ≤ 2 ^ 64 := by exact_mod_cast hfit
    obtain ⟨c, hc⟩ := h
    omega
  · rintro ⟨rfl, rfl, rfl, rfl⟩
    rfl

/-! ## The scan is exact -/

section Exact

variable {ps : List Row} {t : OffsetTable}

theorem relRotation_bounds (p q : Row) : 0 ≤ relRotation p q ∧ relRotation p q < 4 := by
  unfold relRotation
  omega

/-- A pair in the box has the key of the relation it stands in. -/
theorem pairKey_eq_iff (hfit : 2 ^ 36 * t.size ≤ 2 ^ 64) {p q : Row} (hbox : t.Box (q.pos - p.pos))
    {A B : Fin maxTypes} {rel : Fin 4} {off : Cell} (hoff : t.Box off) :
    pairKey t p q = packKeys A B rel.val (t.index off) t.size ↔ Relates t A B rel off p q := by
  have hlocal := OffsetTable.box_localOffset hbox (p.rot.val : Int)
  unfold pairKey keyOf OffsetTable.rotMap
  rw [packKeys_inj hfit p.typeIdx.isLt q.typeIdx.isLt A.isLt B.isLt (relRotation_bounds p q)
    ⟨by omega, by omega⟩ (OffsetTable.index_lt hlocal) (OffsetTable.index_lt hoff),
    OffsetTable.index_inj hlocal, localOffset_eq_iff, Fin.val_inj, Fin.val_inj]
  unfold Relates
  tauto

theorem keyedPairs_eq (hfit : 2 ^ 36 * t.size ≤ 2 ^ 64) (A B : Fin maxTypes) (rel : Fin 4)
    {off : Cell} (hoff : t.Box off) :
    keyedPairs ps t (packKeys A B rel.val (t.index off) t.size) = orderedPairs ps t A B rel off := by
  refine Finset.filter_congr fun ij _ => ?_
  refine and_congr_right fun _ => ?_
  constructor
  · rintro ⟨hbox, hkey⟩
    exact (pairKey_eq_iff hfit hbox hoff).mp hkey
  · intro h
    exact ⟨h.2.2.2.1, (pairKey_eq_iff hfit h.2.2.2.1 hoff).mpr h⟩

/-- The vectorised scan equals the double loop while the key space fits into 64 bits. -/
theorem mapPairs_exact (hps : InRange ps t) (hfit : 2 ^ 36 * t.size ≤ 2 ^ 64) :
    ScanExact ps t where
  sorted := unique_sorted _
  aligned := by
    unfold mapPairs unique
    rw [List.length_map]
  counted := by
    intro A B rel off hoff
    rw [count_eq_card hps, keyedPairs_eq hfit A B rel hoff]
  real := by
    intro key hkey
    have hmem := (mem_unique _ _).mp hkey
    rw [keys_eq hps] at hmem
    obtain ⟨⟨a, b⟩, hab, hsome⟩ := List.mem_filterMap.mp hmem
    obtain ⟨hne, p, q, hp, hq, hbox⟩ := (mem_scanned hps).mp hab
    obtain ⟨ha, rfl⟩ := List.getElem?_eq_some_iff.mp hp
    obtain ⟨hb, rfl⟩ := List.getElem?_eq_some_iff.mp hq
    unfold keyAt at hsome
    rw [hp, hq] at hsome
    have hkeyeq : pairKey t ps[a] ps[b] = key := Option.some.inj hsome
    have hrel := relRotation_bounds ps[a] ps[b]
    refine ⟨ps[a].typeIdx, ps[b].typeIdx, ⟨(relRotation ps[a] ps[b]).toNat, by omega⟩,
      localOffset (ps[b].pos - ps[a].pos) ps[a].rot.val, OffsetTable.box_localOffset hbox _, ?_, ?_⟩
    · rw [← hkeyeq]
      unfold pairKey keyOf OffsetTable.rotMap
      dsimp only
      rw [Int.toNat_of_nonneg hrel.1]
    · refine ⟨(⟨a, ha⟩, ⟨b, hb⟩), Finset.mem_filter.mpr ⟨Finset.mem_univ _, ?_, rfl, rfl, ?_, hbox, ?_⟩⟩
      · exact fun h => hne (congrArg Fin.val h)
      · exact (Int.toNat_of_nonneg hrel.1).symm
      · exact (rotateVector_localOffset _ _).symm

end Exact

/-- Two blocks in one cell and a third beside them, at the default radii. -/
def stackRows : List Row :=
  [⟨⟨5, by decide⟩, 1, ⟨-3, 9, 4⟩⟩, ⟨⟨7, by decide⟩, 0, ⟨-3, 9, 4⟩⟩, ⟨⟨5, by decide⟩, 2, ⟨-4, 9, 4⟩⟩]

theorem mapPairs_exact_stack : ScanExact stackRows ⟨3, 2⟩ := by
  have hps : InRange stackRows ⟨3, 2⟩ := by
    unfold InRange
    decide
  have hfit : 2 ^ 36 * OffsetTable.size ⟨3, 2⟩ ≤ 2 ^ 64 := by
    rw [OffsetTable.size_eq]
    decide
  exact mapPairs_exact hps hfit

/-! ## A neighbourhood too wide for the key -/

/-- Radius `2 ^ 14` in XZ: more than `2 ^ 28` offsets. -/
def wideTable : OffsetTable := ⟨2 ^ 14, 0⟩

/-- Two pairs, far from each other, whose keys are `0` and `2 ^ 64`. -/
def wideRows : List Row :=
  [⟨⟨0, by decide⟩, 0, ⟨0, 0, 0⟩⟩, ⟨⟨0, by decide⟩, 0, ⟨-16384, 0, -16384⟩⟩,
    ⟨⟨32766, by decide⟩, 0, ⟨200000, 0, 0⟩⟩, ⟨⟨11, by decide⟩, 3, ⟨216321, 0, -16368⟩⟩]

theorem pairKey_wide :
    pairKey wideTable (wideRows.get ⟨2, by decide⟩) (wideRows.get ⟨3, by decide⟩) =
      packKeys 0 0 0 (wideTable.index ⟨-16384, 0, -16384⟩) wideTable.size := by
  show packKeys 32766 11 3 (wideTable.index ⟨16321, 0, -16368⟩) wideTable.size = _
  rw [OffsetTable.index_eq (by decide), OffsetTable.index_eq (by decide), OffsetTable.size_eq]
  decide

/-- At that radius the scan counts the second pair under the first pair's key. -/
theorem scan_not_exact_wide : InRange wideRows wideTable ∧ ¬ ScanExact wideRows wideTable := by
  have hps : InRange wideRows wideTable := by
    unfold InRange
    decide
  refine ⟨hps, fun h => ?_⟩
  have hcount := h.counted ⟨0, by decide⟩ ⟨0, by decide⟩ 0 ⟨-16384, 0, -16384⟩ (by decide)
  rw [count_eq_card hps] at hcount
  have hone : (orderedPairs wideRows wideTable ⟨0, by decide⟩ ⟨0, by decide⟩ 0
      ⟨-16384, 0, -16384⟩).card = 1 := by decide
  have htwo : 1 < (keyedPairs wideRows wideTable (packKeys 0 0 0
      (wideTable.index ⟨-16384, 0, -16384⟩) wideTable.size)).card := by
    refine Finset.one_lt_card.mpr ⟨(⟨0, by decide⟩, ⟨1, by decide⟩), ?_,
      (⟨2, by decide⟩, ⟨3, by decide⟩), ?_, by decide⟩
    · exact Finset.mem_filter.mpr ⟨Finset.mem_univ _, by decide, by decide, rfl⟩
    · exact Finset.mem_filter.mpr ⟨Finset.mem_univ _, by decide, by decide, pairKey_wide⟩
  rw [hone] at hcount
  exact absurd hcount (Nat.ne_of_gt htwo)

end TraxMania.Constraints
