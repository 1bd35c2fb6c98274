import TraxMania.Lib.SortBy
import Mathlib.Algebra.Group.Int.Defs
import Mathlib.Algebra.GroupWithZero.Nat
import Mathlib.Data.List.Dedup
import Mathlib.Data.List.Flatten

/-
  Array operations as numpy has them, on lists: `repeat`, `cumsum`, `searchsorted`, fancy
  indexing, `unique`. The lemmas are about one idiom: look up the run of every target in a sorted
  array and expand the runs `[lo, hi)` without a loop.

  Nothing here is about a program in particular.
-/

namespace Lib.Numpy

open Lib.SortBy

variable {α β γ : Type*}

/-- An `int64`: arithmetic is modulo `2 ^ 64`. -/
def int64 (v : Int) : Int := v.bmod (2 ^ 64)

theorem int64_eq_self {v : Int} (h0 : -2 ^ 63 ≤ v) (h1 : v < 2 ^ 63) : int64 v = v := by
  unfold int64
  rw [Int.bmod_eq_of_le]
  · omega
  · omega

/-- `int64` values agree when the numbers differ by a multiple of `2 ^ 64`. -/
theorem int64_eq_iff {v w : Int} : int64 v = int64 w ↔ (2 ^ 64 : Int) ∣ v - w := by
  unfold int64
  rw [Int.bmod_eq_bmod_iff_bmod_sub_eq_zero]
  exact Int.dvd_iff_bmod_eq_zero.symm

/-- `repeat(xs, counts)`. -/
def repeatEach (xs : List α) (counts : List Nat) : List α :=
  (xs.zip counts).flatMap fun (x, c) => List.replicate c x

def cumsumFrom : Nat → List Nat → List Nat
  | _, [] => []
  | acc, c :: cs => (acc + c) :: cumsumFrom (acc + c) cs

/-- `cumsum(counts)`. -/
def cumsum (counts : List Nat) : List Nat := cumsumFrom 0 counts

/-- `searchsorted(xs, target, side="left")` and `side="right"`, on a sorted array. -/
def searchLeft (xs : List Int) (target : Int) : Nat := (xs.takeWhile fun x => x < target).length
def searchRight (xs : List Int) (target : Int) : Nat := (xs.takeWhile fun x => x ≤ target).length

/-- `xs[indices]`. -/
def takeAt (xs : List α) (indices : List Nat) : List α := indices.filterMap (xs[·]?)

/-- `unique(xs, return_counts=True)`. -/
def unique (xs : List Int) : List Int × List Nat :=
  let values := (sortBy id xs).dedup
  (values, values.map fun v => xs.count v)

/-! ## Expanding ranges -/

/-- `arange(total) - repeat(cumsum(counts) - counts, counts)`. -/
def ranks (counts : List Nat) : List Nat :=
  List.zipWith (· - ·) (List.range counts.sum)
    (repeatEach (List.zipWith (· - ·) (cumsum counts) counts) counts)

theorem repeatEach_cons (x : α) (xs : List α) (c : Nat) (cs : List Nat) :
    repeatEach (x :: xs) (c :: cs) = List.replicate c x ++ repeatEach xs cs := rfl

theorem zipWith_range'_replicate (s c : Nat) :
    List.zipWith (· - ·) (List.range' s c) (List.replicate c s) = List.range c := by
  refine List.ext_getElem (by simp) fun i h₁ h₂ => ?_
  simp

/-- The ranks count every range from zero. -/
theorem ranks_eq (counts : List Nat) : ranks counts = counts.flatMap List.range := by
  have hfrom : ∀ (counts : List Nat) (s : Nat),
      List.zipWith (· - ·) (List.range' s counts.sum)
        (repeatEach (List.zipWith (· - ·) (cumsumFrom s counts) counts) counts) =
      counts.flatMap List.range := by
    intro counts
    induction counts with
    | nil => exact fun _ => rfl
    | cons c cs ih =>
      intro s
      have hstart : s + c - c = s := by omega
      rw [cumsumFrom, List.zipWith_cons_cons, hstart, repeatEach_cons, List.sum_cons,
        List.range'_append_1.symm, List.zipWith_append (by simp), zipWith_range'_replicate,
        ih (s + c), List.flatMap_cons]
  unfold ranks cumsum
  rw [List.range_eq_range']
  exact hfrom counts 0

theorem zipWith_flatMap {f : α → List β} {g : α → List β} {op : β → β → γ} {as : List α}
    (h : ∀ a ∈ as, (f a).length = (g a).length) :
    List.zipWith op (as.flatMap f) (as.flatMap g) =
      as.flatMap fun a => List.zipWith op (f a) (g a) := by
  induction as with
  | nil => rfl
  | cons a as ih =>
    rw [List.flatMap_cons, List.flatMap_cons, List.flatMap_cons,
      List.zipWith_append (h a (by simp)), ih fun a' ha' => h a' (by simp [ha'])]

theorem repeatEach_map (as : List α) (f : α → β) (c : α → Nat) :
    repeatEach (as.map f) (as.map c) = as.flatMap fun a => List.replicate (c a) (f a) := by
  unfold repeatEach
  rw [List.zip_map', List.flatMap_map]

/-- `repeat(lo, counts) + ranks` runs through every range `[lo, lo + count)`. -/
theorem expand_ranges (as : List α) (lo c : α → Nat) :
    List.zipWith (· + ·) (repeatEach (as.map lo) (as.map c)) (ranks (as.map c)) =
      as.flatMap fun a => List.range' (lo a) (c a) := by
  rw [ranks_eq, repeatEach_map, List.flatMap_map, zipWith_flatMap (by simp)]
  refine List.flatMap_congr fun a _ => ?_
  refine List.ext_getElem (by simp) fun i h₁ h₂ => ?_
  simp

/-! ## Runs of a sorted array -/

theorem takeAt_range' (xs : List α) (s c : Nat) :
    takeAt xs (List.range' s c) = (xs.drop s).take c := by
  unfold takeAt
  induction c generalizing s with
  | zero => rfl
  | succ c ih =>
    rw [List.range'_succ, List.filterMap_cons, ih]
    by_cases hs : s < xs.length
    · rw [List.getElem?_eq_getElem hs, List.drop_eq_getElem_cons hs]
      rfl
    · rw [List.getElem?_eq_none (by omega), List.drop_eq_nil_of_le (by omega),
        List.drop_eq_nil_of_le (by omega), List.take_nil, List.take_nil]

theorem searchLeft_cons (x : Int) (xs : List Int) (target : Int) :
    searchLeft (x :: xs) target = if x < target then searchLeft xs target + 1 else 0 := by
  unfold searchLeft
  rw [List.takeWhile_cons]
  by_cases h : x < target
  · simp [h]
  · simp [h]

theorem searchRight_cons (x : Int) (xs : List Int) (target : Int) :
    searchRight (x :: xs) target = if x ≤ target then searchRight xs target + 1 else 0 := by
  unfold searchRight
  rw [List.takeWhile_cons]
  by_cases h : x ≤ target
  · simp [h]
  · simp [h]

theorem searchLeft_of_le {xs : List Int} {target : Int} (h : ∀ x ∈ xs, target ≤ x) :
    searchLeft xs target = 0 := by
  cases xs with
  | nil => rfl
  | cons x xs =>
    have hx := h x (by simp)
    rw [searchLeft_cons, if_neg (by omega)]

/-- In an array sorted by `f`, the run between the two bounds is what has the target value. -/
theorem run_eq_filter {f : α → Int} {xs : List α} (hxs : xs.Pairwise fun a b => f a ≤ f b)
    (target : Int) :
    (xs.drop (searchLeft (xs.map f) target)).take
        (searchRight (xs.map f) target - searchLeft (xs.map f) target) =
      xs.filter fun a => f a = target := by
  induction xs with
  | nil => rfl
  | cons x xs ih =>
    obtain ⟨hx, hxs⟩ := List.pairwise_cons.mp hxs
    have ih := ih hxs
    rw [List.map_cons, searchLeft_cons, searchRight_cons]
    rcases lt_trichotomy (f x) target with hlt | heq | hgt
    · rw [if_pos hlt, if_pos hlt.le, List.drop_succ_cons, Nat.add_sub_add_right, ih,
        List.filter_cons_of_neg (by simpa using hlt.ne)]
    · -- nothing lies before the run any more
      have hzero : searchLeft (xs.map f) target = 0 := by
        refine searchLeft_of_le fun v hv => ?_
        obtain ⟨a, ha, rfl⟩ := List.mem_map.mp hv
        rw [← heq]
        exact hx a ha
      rw [hzero] at ih
      rw [if_neg heq.not_lt, if_pos heq.le, List.filter_cons_of_pos (by simpa using heq), ← ih]
      rfl
    · have hne : ∀ a ∈ xs, ¬ f a = target := by
        intro a ha he
        have := hx a ha
        omega
      rw [if_neg hgt.not_gt, if_neg hgt.not_ge, List.filter_cons_of_neg (by simpa using hgt.ne'),
        List.filter_eq_nil_iff.mpr (by simpa using hne)]
      rfl

theorem searchRight_le_length (xs : List Int) (target : Int) :
    searchRight xs target ≤ xs.length := by
  unfold searchRight
  exact (List.takeWhile_sublist _).length_le

/-- The bounds are as far apart as the run is long. -/
theorem run_length {f : α → Int} {xs : List α} (hxs : xs.Pairwise fun a b => f a ≤ f b)
    (target : Int) :
    (xs.filter fun a => f a = target).length =
      searchRight (xs.map f) target - searchLeft (xs.map f) target := by
  have hle := searchRight_le_length (xs.map f) target
  rw [List.length_map] at hle
  rw [← run_eq_filter hxs target, List.length_take, List.length_drop]
  omega

/-- The pairs of a source and a member of its run, as the two arrays of indices give them. -/
theorem zip_expand {as : List α} {run : α → List β} :
    (repeatEach as (as.map fun a => (run a).length)).zip (as.flatMap run) =
      as.flatMap fun a => (run a).map fun b => (a, b) := by
  have hrep := repeatEach_map as id fun a => (run a).length
  rw [List.map_id] at hrep
  rw [hrep]
  induction as with
  | nil => rfl
  | cons a as ih =>
    have hrep' := repeatEach_map as id fun a => (run a).length
    rw [List.map_id] at hrep'
    rw [List.flatMap_cons, List.flatMap_cons, List.flatMap_cons, List.zip_append (by simp),
      ih hrep']
    congr 1
    refine List.ext_getElem (by simp) fun i h₁ h₂ => ?_
    simp

/-! ## Reading and writing at indices -/

/-- `xs[indices] = values`. -/
def scatter (xs : List α) (indices : List Nat) (values : List α) : List α :=
  (indices.zip values).foldl (fun xs pv => xs.set pv.1 pv.2) xs

/-- `where(xs == v)[0]`. -/
def positions [DecidableEq α] (xs : List α) (v : α) : List Nat :=
  (List.range xs.length).filter fun p => xs[p]? = some v

theorem length_takeAt {xs : List α} {indices : List Nat} (h : ∀ p ∈ indices, p < xs.length) :
    (takeAt xs indices).length = indices.length := by
  induction indices with
  | nil => rfl
  | cons p indices ih =>
    obtain ⟨hp, hrest⟩ := List.forall_mem_cons.mp h
    have hsome := List.getElem?_eq_getElem hp
    unfold takeAt at ih ⊢
    rw [List.filterMap_cons_some hsome, List.length_cons, List.length_cons, ih hrest]

theorem getElem?_takeAt {xs : List α} {indices : List Nat}
    (h : ∀ p ∈ indices, p < xs.length) (k : Nat) :
    (takeAt xs indices)[k]? = indices[k]?.bind (xs[·]?) := by
  induction indices generalizing k with
  | nil => rfl
  | cons p indices ih =>
    obtain ⟨hp, hrest⟩ := List.forall_mem_cons.mp h
    have hsome := List.getElem?_eq_getElem hp
    unfold takeAt at ih ⊢
    rw [List.filterMap_cons_some hsome]
    cases k with
    | zero => rw [List.getElem?_cons_zero, List.getElem?_cons_zero, Option.bind_some, hsome]
    | succ k =>
      rw [List.getElem?_cons_succ, List.getElem?_cons_succ]
      exact ih hrest k

theorem takeAt_range (xs : List α) : takeAt xs (List.range xs.length) = xs := by
  rw [List.range_eq_range', takeAt_range', List.drop_zero, List.take_length]

theorem takeAt_perm {xs : List α} {σ : List Nat} (h : σ.Perm (List.range xs.length)) :
    (takeAt xs σ).Perm xs := by
  have hperm := h.filterMap (xs[·]?)
  have hrange := takeAt_range xs
  unfold takeAt at hrange ⊢
  rwa [hrange] at hperm

theorem takeAt_map (f : α → β) (xs : List α) (σ : List Nat) :
    takeAt (xs.map f) σ = (takeAt xs σ).map f := by
  unfold takeAt
  rw [List.map_filterMap]
  apply List.filterMap_congr
  intro p _
  exact List.getElem?_map

theorem mem_positions [DecidableEq α] {xs : List α} {v : α} {p : Nat} : p ∈ positions xs v ↔ xs[p]? = some v := by
  unfold positions
  rw [List.mem_filter, List.mem_range, decide_eq_true_eq]
  exact and_iff_right_of_imp fun h => (List.getElem?_eq_some_iff.mp h).1

theorem length_scatter (indices : List Nat) (values : List α) (xs : List α) :
    (scatter xs indices values).length = xs.length := by
  unfold scatter
  induction indices.zip values generalizing xs with
  | nil => rfl
  | cons pv rest ih => exact (ih (xs.set pv.1 pv.2)).trans List.length_set

theorem getElem?_scatter_of_notMem {indices : List Nat} {p : Nat} (hp : p ∉ indices) (values : List α)
    (xs : List α) : (scatter xs indices values)[p]? = xs[p]? := by
  induction indices generalizing values xs with
  | nil => rfl
  | cons q indices ih =>
    obtain ⟨hq, hrest⟩ := List.ne_and_not_mem_of_not_mem_cons hp
    cases values with
    | nil => rfl
    | cons value values =>
      have hunfold : scatter xs (q :: indices) (value :: values) =
          scatter (xs.set q value) indices values := rfl
      rw [hunfold, ih hrest, List.getElem?_set_ne (fun he => hq he.symm)]

/-- Every index of a list without repetition gets the value beside it. -/
theorem getElem?_scatter {indices : List Nat} (hnodup : indices.Nodup) {values : List α}
    {xs : List α} (hlt : ∀ p ∈ indices, p < xs.length) {k p : Nat} {value : α}
    (hp : indices[k]? = some p) (hvalue : values[k]? = some value) :
    (scatter xs indices values)[p]? = some value := by
  induction indices generalizing values xs k with
  | nil => simp at hp
  | cons q indices ih =>
    obtain ⟨hq, hrest⟩ := List.nodup_cons.mp hnodup
    obtain ⟨hqlt, hlt⟩ := List.forall_mem_cons.mp hlt
    cases values with
    | nil => simp at hvalue
    | cons first values =>
      have hunfold : scatter xs (q :: indices) (first :: values) =
          scatter (xs.set q first) indices values := rfl
      rw [hunfold]
      cases k with
      | zero =>
        rw [List.getElem?_cons_zero] at hp hvalue
        obtain rfl := Option.some.inj hp
        rw [getElem?_scatter_of_notMem hq, List.getElem?_set_self hqlt, hvalue]
      | succ k =>
        rw [List.getElem?_cons_succ] at hp hvalue
        exact ih hrest (by simpa using hlt) hp hvalue

/-! ## `unique` -/

/-- The count `unique` gives a value. -/
def countAt (u : List Int × List Nat) (v : Int) : Nat := ((u.1.zip u.2).lookup v).getD 0

theorem unique_sorted (xs : List Int) : (unique xs).1.Pairwise (· < ·) := by
  have hle : (sortBy id xs).dedup.Pairwise (· ≤ ·) :=
    (sortBy_pairwise id xs).sublist (List.dedup_sublist _)
  have hne : (sortBy id xs).dedup.Pairwise (· ≠ ·) := List.nodup_dedup _
  exact (hle.and hne).imp fun h => lt_of_le_of_ne h.1 h.2

theorem mem_unique (xs : List Int) (v : Int) : v ∈ (unique xs).1 ↔ v ∈ xs := by
  show v ∈ (sortBy id xs).dedup ↔ v ∈ xs
  rw [List.mem_dedup, mem_sortBy]

theorem countAt_unique (xs : List Int) (v : Int) : countAt (unique xs) v = xs.count v := by
  have hlookup : ∀ values : List Int,
      ((values.zip (values.map fun v => xs.count v)).lookup v).getD 0 =
        if v ∈ values then xs.count v else 0 := by
    intro values
    induction values with
    | nil => rfl
    | cons w values ih =>
      rw [List.map_cons, List.zip_cons_cons, List.lookup_cons]
      by_cases hvw : v = w
      · subst hvw
        simp
      · rw [beq_false_of_ne hvw]
        simp only [List.mem_cons, hvw, false_or]
        exact ih
  refine (hlookup (unique xs).1).trans ?_
  split
  · rfl
  · next hv => exact (List.count_eq_zero.mpr fun h => hv ((mem_unique xs v).mpr h)).symm

end Lib.Numpy
