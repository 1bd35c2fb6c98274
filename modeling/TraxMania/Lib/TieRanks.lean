import Mathlib.Algebra.Order.Field.Rat
import Mathlib.Data.List.Count
import Mathlib.Data.List.ProdSigma
import Mathlib.Tactic.Linarith
import Mathlib.Tactic.Ring
import Mathlib.Tactic.FieldSimp
import TraxMania.Lib.Numpy

/-
  Ranks of the entries of a list when equal entries share the mean of their ranks: as a count, as a
  scan of the runs of equal keys in a sorted index array, and as the mean over the positions of each
  value. The ranks that one list has in a pool of two count the pairs it wins and ties.

  Nothing here is about a program in particular.
-/

namespace Lib.TieRanks

open Lib.Numpy Lib.SortBy

variable {α : Type*} [LinearOrder α]

/-- How many entries are smaller than `v`. -/
def below (xs : List α) (v : α) : ℕ := xs.countP fun x => x < v

/-- The smaller entries, and half of the equal ones and one. -/
def averageRank (xs : List α) (v : α) : ℚ := below xs v + ((xs.count v : ℚ) + 1) / 2

/-- The average ranks of all entries. -/
def averageRanks (xs : List α) : List ℚ := xs.map (averageRank xs)

/-! ## The ranks as arrays -/

/-- `ranks[idx] = value` for every index of an array. -/
def setAll (ranks : List ℚ) (indices : List ℕ) (value : ℚ) : List ℚ :=
  indices.foldl (fun ranks p => ranks.set p value) ranks

/-- `while j + 1 < n and keys[j + 1] == keys[i]: j += 1`. -/
def tieEnd (keys : List α) (i j : ℕ) : ℕ :=
  if j + 1 < keys.length ∧ keys[j + 1]? = keys[i]? then tieEnd keys i (j + 1) else j
termination_by keys.length - j

theorem le_tieEnd (keys : List α) (i j : ℕ) : j ≤ tieEnd keys i j := by
  fun_induction tieEnd keys i j with
  | case1 j h ih => omega
  | case2 j h => exact le_refl j

/-- `while i < n`: the run of ties that starts at `i` gets the rank `rank i j`, where `j` is its
    last index. `keys` are the sorted values, and `order` says where each of them comes from. -/
def rankRuns (rank : ℕ → ℕ → ℚ) (order : List ℕ) (keys : List α) (i : ℕ) (ranks : List ℚ) :
    List ℚ :=
  if i < keys.length then
    let j := tieEnd keys i i
    rankRuns rank order keys (j + 1)
      (setAll ranks (takeAt order (List.range' i (j + 1 - i))) (rank i j))
  else ranks
termination_by keys.length - i
decreasing_by
  have hj := le_tieEnd keys i i
  omega

/-- The distinct values with their counts, smallest first. -/
def uniqueCounts (xs : List α) : List (α × ℕ) :=
  (sortBy id xs).dedup.map fun v => (v, xs.count v)

/-- `ranks[indices].mean()`. -/
def meanAt (ranks : List ℚ) (indices : List ℕ) : ℚ :=
  (takeAt ranks indices).sum / indices.length

/-- The positions of one value get the mean of their ranks. -/
def meanTies (xs : List α) (ranks : List ℚ) (vc : α × ℕ) : List ℚ :=
  if 1 < vc.2 then setAll ranks (positions xs vc.1) (meanAt ranks (positions xs vc.1)) else ranks

/-- `order` sorts `xs`: the indices of `xs` in the order of their values. -/
structure Sorts (xs : List α) (order : List ℕ) : Prop where
  perm : order.Perm (List.range xs.length)
  sorted : (takeAt xs order).Pairwise (· ≤ ·)

/-- `xs.argsort(kind="mergesort")`: equal values stay in their order. -/
def stableArgsort (xs : List α) : List ℕ := (sortBy Prod.fst xs.zipIdx).map Prod.snd

/-- What numpy is free to choose: the order of equal values in `argsort`, and what an array from
    `empty_like` holds before it is written. -/
structure Numpy (α : Type*) [LinearOrder α] where
  argsort : List α → List ℕ
  empty : ℕ → List ℚ
  sorts : ∀ xs, Sorts xs (argsort xs)
  length_empty : ∀ n, (empty n).length = n

/-- The ranks from the places in an index array, with the mean of them for each value that is there
    more than once. -/
def placedRanks (np : Numpy α) (xs : List α) : List ℚ :=
  let order := np.argsort xs
  let ranks := scatter (np.empty order.length) order
    ((List.range xs.length).map fun k : ℕ => (k : ℚ) + 1)
  (uniqueCounts xs).foldl (meanTies xs) ranks

/-- A ranking that gives equal values the mean of their ranks. -/
structure TieAware (rank : List α → List ℚ) : Prop where
  length_eq : ∀ xs, (rank xs).length = xs.length
  rank_eq : ∀ (xs : List α) (i : ℕ) (v : α), xs[i]? = some v →
    (rank xs)[i]? =
      some (xs.countP (fun x => x < v) + ((xs.countP (fun x => x = v) : ℚ) + 1) / 2)
  follows : ∀ (xs : List α) (σ : List ℕ), σ.Perm (List.range xs.length) →
    rank (takeAt xs σ) = takeAt (rank xs) σ
  equal : ∀ (xs : List α) (i j : ℕ), xs[i]? = xs[j]? → (rank xs)[i]? = (rank xs)[j]?

/-! ## Counts in a sorted list -/

theorem averageRank_perm {xs ys : List α} (h : xs.Perm ys) (v : α) :
    averageRank xs v = averageRank ys v := by
  unfold averageRank below
  rw [h.countP_eq, h.count_eq]

/-- A sorted list is what is smaller than `v`, then `v` itself, then what is larger. -/
theorem sorted_split {keys : List α} (h : keys.Pairwise (· ≤ ·)) (v : α) :
    keys = keys.filter (fun k => k < v) ++
      (List.replicate (keys.count v) v ++ keys.filter fun k => v < k) := by
  induction keys with
  | nil => rfl
  | cons k keys ih =>
    obtain ⟨hk, hrest⟩ := List.pairwise_cons.mp h
    have hsplit := ih hrest
    rcases lt_trichotomy k v with hlt | rfl | hgt
    · rw [List.filter_cons_of_pos (by simpa using hlt),
        List.filter_cons_of_neg (by simpa using le_of_lt hlt), List.count_cons_of_ne (ne_of_lt hlt),
        List.cons_append, ← hsplit]
    · have hnone : keys.filter (fun x => x < k) = [] := by
        rw [List.filter_eq_nil_iff]
        intro x hx
        simpa using hk x hx
      rw [List.filter_cons_of_neg (by simp), List.filter_cons_of_neg (by simp),
        List.count_cons_self, hnone, List.replicate_succ, List.nil_append, List.cons_append]
      rw [hnone, List.nil_append] at hsplit
      rw [← hsplit]
    · have hnone : keys.filter (fun x => x < v) = [] := by
        rw [List.filter_eq_nil_iff]
        intro x hx
        simpa using le_trans (le_of_lt hgt) (hk x hx)
      have hzero : keys.count v = 0 := by
        rw [List.count_eq_zero]
        intro hv
        exact absurd (hk v hv) (not_le.mpr hgt)
      have hall : keys.filter (fun x => v < x) = keys := by
        rw [List.filter_eq_self]
        intro x hx
        simpa using lt_of_lt_of_le hgt (hk x hx)
      rw [List.filter_cons_of_neg (by simpa using le_of_lt hgt), hnone,
        List.filter_cons_of_pos (by simpa using hgt), List.count_cons_of_ne (ne_of_gt hgt), hzero,
        hall]
      rfl

/-- Where a value is in a sorted list: in one run, behind all smaller ones. -/
theorem getElem?_eq_some_iff {keys : List α} (h : keys.Pairwise (· ≤ ·)) (v : α) (k : ℕ) :
    keys[k]? = some v ↔ below keys v ≤ k ∧ k < below keys v + keys.count v := by
  have hbelow : below keys v = (keys.filter fun k => k < v).length := List.countP_eq_length_filter
  rw [hbelow]
  conv_lhs => rw [sorted_split h v]
  by_cases hleft : k < (keys.filter fun k => k < v).length
  · rw [List.getElem?_append_left hleft]
    apply iff_of_false
    · intro hv
      have hlt := List.of_mem_filter (List.mem_of_getElem? hv)
      simp at hlt
    · omega
  · rw [List.getElem?_append_right (by omega)]
    by_cases hrun : k - (keys.filter fun k => k < v).length < keys.count v
    · rw [List.getElem?_append_left (by simpa using hrun), List.getElem?_replicate, if_pos hrun]
      exact iff_of_true rfl (by omega)
    · rw [List.getElem?_append_right (by simpa using hrun)]
      apply iff_of_false
      · intro hv
        have hlt := List.of_mem_filter (List.mem_of_getElem? hv)
        simp at hlt
      · omega

/-- The entry behind the run of `v` has as many smaller entries as `v` has smaller or equal ones. -/
theorem below_of_run_end {keys : List α} (h : keys.Pairwise (· ≤ ·)) {v w : α}
    (hv : v ∈ keys) (hw : keys[below keys v + keys.count v]? = some w) :
    below keys w = below keys v + keys.count v := by
  have hend := (getElem?_eq_some_iff h w _).mp hw
  have hpos : 0 < keys.count v := List.count_pos_iff.mpr hv
  by_contra hne
  -- otherwise the entry before would be `w` too, and it is `v`
  have hbefore : keys[below keys v + keys.count v - 1]? = some w :=
    (getElem?_eq_some_iff h w _).mpr (by omega)
  have hbefore' : keys[below keys v + keys.count v - 1]? = some v :=
    (getElem?_eq_some_iff h v _).mpr (by omega)
  obtain rfl : w = v := by
    rw [hbefore] at hbefore'
    exact Option.some.inj hbefore'
  omega

/-- The scan of a run ends with the last tie. -/
theorem tieEnd_eq {keys : List α} (h : keys.Pairwise (· ≤ ·)) {v : α} {i : ℕ}
    (hi : keys[i]? = some v) (j : ℕ) (hj : keys[j]? = some v) :
    tieEnd keys i j = below keys v + keys.count v - 1 := by
  fun_induction tieEnd keys i j with
  | case1 j hnext ih => exact ih (by rw [hnext.2, hi])
  | case2 j hstop =>
    have hj' := (getElem?_eq_some_iff h v j).mp hj
    by_contra hne
    have hnext : keys[j + 1]? = some v := (getElem?_eq_some_iff h v _).mpr (by omega)
    exact hstop ⟨(List.getElem?_eq_some_iff.mp hnext).1, by rw [hnext, hi]⟩

/-! ## Arrays -/

theorem length_setAll (indices : List ℕ) (value : ℚ) (ranks : List ℚ) :
    (setAll ranks indices value).length = ranks.length := by
  induction indices generalizing ranks with
  | nil => rfl
  | cons p indices ih => exact (ih (ranks.set p value)).trans List.length_set

theorem getElem?_setAll (indices : List ℕ) (value : ℚ) (ranks : List ℚ) (p : ℕ)
    (hp : p < ranks.length) :
    (setAll ranks indices value)[p]? = if p ∈ indices then some value else ranks[p]? := by
  induction indices generalizing ranks with
  | nil => rw [if_neg List.not_mem_nil]; rfl
  | cons q indices ih =>
    have hstep := ih (ranks.set q value) (by rw [List.length_set]; exact hp)
    have hunfold : setAll ranks (q :: indices) value = setAll (ranks.set q value) indices value := rfl
    rw [hunfold, hstep]
    by_cases hmem : p ∈ indices
    · rw [if_pos hmem, if_pos (List.mem_cons_of_mem _ hmem)]
    · rw [if_neg hmem]
      by_cases heq : p = q
      · subst heq
        rw [if_pos List.mem_cons_self, List.getElem?_set_self hp]
      · have hnot : p ∉ q :: indices := by
          rw [List.mem_cons]
          intro hor
          exact hor.elim heq hmem
        rw [if_neg hnot, List.getElem?_set_ne (fun he => heq he.symm)]

namespace Sorts

variable {xs : List α} {order : List ℕ}

theorem lt_length (h : Sorts xs order) : ∀ p ∈ order, p < xs.length := fun _ hp =>
  List.mem_range.mp (h.perm.mem_iff.mp hp)

theorem nodup (h : Sorts xs order) : order.Nodup :=
  h.perm.nodup_iff.mpr List.nodup_range

theorem keys_perm (h : Sorts xs order) : (takeAt xs order).Perm xs := takeAt_perm h.perm

theorem length_eq (h : Sorts xs order) : order.length = xs.length := by
  rw [h.perm.length_eq, List.length_range]

/-- The key at `k` is the value at the index that `order` has there. -/
theorem key_eq (h : Sorts xs order) {k p : ℕ} (hp : order[k]? = some p) :
    (takeAt xs order)[k]? = xs[p]? := by
  rw [getElem?_takeAt h.lt_length, hp, Option.bind_some]

theorem exists_index (h : Sorts xs order) {p : ℕ} (hp : p < xs.length) :
    ∃ k : ℕ, order[k]? = some p :=
  List.mem_iff_getElem?.mp (h.perm.mem_iff.mpr (List.mem_range.mpr hp))

/-- The places of a value in the index array are one block. -/
theorem value_iff (h : Sorts xs order) {k p : ℕ} (hp : order[k]? = some p) (v : α) :
    xs[p]? = some v ↔ below xs v ≤ k ∧ k < below xs v + xs.count v := by
  have hbelow : below (takeAt xs order) v = below xs v := h.keys_perm.countP_eq _
  rw [← h.key_eq hp, getElem?_eq_some_iff h.sorted, hbelow, h.keys_perm.count_eq v]

theorem block_le (h : Sorts xs order) (v : α) : below xs v + xs.count v ≤ order.length := by
  have hsplit := congrArg List.length (sorted_split h.sorted v)
  have hbelow : below (takeAt xs order) v = below xs v := h.keys_perm.countP_eq _
  rw [List.length_append, List.length_append, List.length_replicate,
    ← List.countP_eq_length_filter, h.keys_perm.count_eq v, length_takeAt h.lt_length] at hsplit
  unfold below at hbelow ⊢
  omega

end Sorts

/-! ## The scan of the runs -/

/-- The ranks of the first `i` keys are written. -/
def Ranked (xs : List α) (order : List ℕ) (i : ℕ) (ranks : List ℚ) : Prop :=
  ranks.length = xs.length ∧
    ∀ k p, k < i → order[k]? = some p → ranks[p]? = xs[p]?.map (averageRank xs)

/-- The scan is between two runs. -/
def AtBoundary (keys : List α) (i : ℕ) : Prop :=
  ∀ v, keys[i]? = some v → below keys v = i

variable {xs : List α} {order : List ℕ}

theorem eq_averageRanks (h : Sorts xs order) {i : ℕ} {ranks : List ℚ}
    (hranks : Ranked xs order i ranks) (hi : xs.length ≤ i) : ranks = averageRanks xs := by
  apply List.ext_getElem?
  intro p
  unfold averageRanks
  rw [List.getElem?_map]
  by_cases hp : p < xs.length
  · obtain ⟨k, hk⟩ := h.exists_index hp
    have hlt := (List.getElem?_eq_some_iff.mp hk).1
    rw [h.length_eq] at hlt
    exact hranks.2 k p (by omega) hk
  · rw [List.getElem?_eq_none (by rw [hranks.1]; omega), List.getElem?_eq_none (by omega)]
    rfl

/-- A run of equal keys has its rank when the rank is written to all of its positions. -/
theorem ranked_setAll (h : Sorts xs order) {i : ℕ} {ranks : List ℚ} {v : α}
    (hbelow : below (takeAt xs order) v = i) (hranks : Ranked xs order i ranks) :
    Ranked xs order (i + (takeAt xs order).count v)
      (setAll ranks ((order.drop i).take ((takeAt xs order).count v)) (averageRank xs v)) := by
  refine ⟨by rw [length_setAll]; exact hranks.1, fun k p hk hp => ?_⟩
  have hplt : p < xs.length := h.lt_length p (List.mem_of_getElem? hp)
  rw [getElem?_setAll _ _ _ _ (by rw [hranks.1]; exact hplt)]
  by_cases hin : p ∈ (order.drop i).take ((takeAt xs order).count v)
  · obtain ⟨m, hm⟩ := List.mem_iff_getElem?.mp hin
    rw [List.getElem?_take] at hm
    split at hm
    · next hmlt =>
      rw [List.getElem?_drop] at hm
      have hkey : xs[p]? = some v := by
        rw [← h.key_eq hm, getElem?_eq_some_iff h.sorted]
        omega
      rw [if_pos hin, hkey]
      rfl
    · cases hm
  · rw [if_neg hin]
    apply hranks.2 k p _ hp
    by_contra hki
    apply hin
    apply List.mem_iff_getElem?.mpr
    have hshift : i + (k - i) = k := by omega
    refine ⟨k - i, ?_⟩
    rw [List.getElem?_take, if_pos (by omega), List.getElem?_drop, hshift]
    exact hp

/-- The scan writes the average ranks, when the rank of a run is the mean of its first and its last
    rank. -/
theorem rankRuns_eq (h : Sorts xs order) {rank : ℕ → ℕ → ℚ}
    (hrank : ∀ i j, rank i j = (((i : ℚ) + 1) + ((j : ℚ) + 1)) / 2) (i : ℕ) (ranks : List ℚ)
    (hboundary : AtBoundary (takeAt xs order) i) (hranks : Ranked xs order i ranks) :
    rankRuns rank order (takeAt xs order) i ranks = averageRanks xs := by
  have hlength := length_takeAt h.lt_length
  rw [h.length_eq] at hlength
  fun_induction rankRuns rank order (takeAt xs order) i ranks with
  | case2 i ranks hstop => exact eq_averageRanks h hranks (by omega)
  | case1 i ranks hi j ih =>
    obtain ⟨v, hv⟩ : ∃ v, (takeAt xs order)[i]? = some v := ⟨_, List.getElem?_eq_getElem hi⟩
    have hbelow : below (takeAt xs order) v = i := hboundary v hv
    have hmem : v ∈ takeAt xs order := List.mem_of_getElem? hv
    have hpos : 0 < (takeAt xs order).count v := List.count_pos_iff.mpr hmem
    have hj : j = i + (takeAt xs order).count v - 1 := by
      rw [← hbelow]
      exact tieEnd_eq h.sorted hv i hv
    have hindices : takeAt order (List.range' i (j + 1 - i)) =
        (order.drop i).take ((takeAt xs order).count v) := by
      rw [takeAt_range']
      congr 1
      omega
    have hvalue : rank i j = averageRank xs v := by
      have hcast : ((j : ℕ) : ℚ) + 1 = i + ((takeAt xs order).count v : ℚ) := by
        have hnat : j + 1 = i + (takeAt xs order).count v := by omega
        exact_mod_cast hnat
      rw [hrank, ← averageRank_perm h.keys_perm, hcast]
      unfold averageRank
      rw [hbelow]
      ring
    apply ih
    · intro w hw
      have hnext : j + 1 = below (takeAt xs order) v + (takeAt xs order).count v := by omega
      rw [hnext] at hw ⊢
      exact below_of_run_end h.sorted hmem hw
    · have hnext : j + 1 = i + (takeAt xs order).count v := by omega
      rw [hindices, hvalue, hnext]
      exact ranked_setAll h hbelow hranks

/-- The scan from the start. -/
theorem rankRuns_start (h : Sorts xs order) {rank : ℕ → ℕ → ℚ}
    (hrank : ∀ i j, rank i j = (((i : ℚ) + 1) + ((j : ℚ) + 1)) / 2) {ranks : List ℚ}
    (hlength : ranks.length = xs.length) :
    rankRuns rank order (takeAt xs order) 0 ranks = averageRanks xs := by
  apply rankRuns_eq h hrank 0 ranks
  · intro v hv
    have hrun := (getElem?_eq_some_iff h.sorted v 0).mp hv
    omega
  · exact ⟨hlength, fun k p hk => absurd hk (Nat.not_lt_zero k)⟩

/-! ## The mean of the ranks of each value -/

/-- The block of a value in the index array. -/
def block (xs : List α) (order : List ℕ) (v : α) : List ℕ :=
  takeAt order (List.range' (below xs v) (xs.count v))

/-- The positions of a value are its block. -/
theorem positions_perm (h : Sorts xs order) (v : α) :
    (positions xs v).Perm (block xs order v) := by
  have hpositions : (positions xs v).Nodup := List.nodup_range.filter _
  have hblock : (block xs order v).Nodup := by
    unfold block
    rw [takeAt_range']
    exact (h.nodup.sublist (List.drop_sublist _ _)).sublist (List.take_sublist _ _)
  apply (List.perm_ext_iff_of_nodup hpositions hblock).mpr
  intro p
  unfold block
  rw [mem_positions, takeAt_range', List.mem_iff_getElem?]
  constructor
  · intro hp
    obtain ⟨k, hk⟩ := h.exists_index (List.getElem?_eq_some_iff.mp hp).1
    have hrun := (h.value_iff hk v).mp hp
    have hback : below xs v + (k - below xs v) = k := by omega
    exact ⟨k - below xs v, by
      rw [List.getElem?_take, if_pos (by omega), List.getElem?_drop, hback]; exact hk⟩
  · intro hp
    obtain ⟨m, hm⟩ := hp
    rw [List.getElem?_take] at hm
    split at hm
    · next hlt =>
      rw [List.getElem?_drop] at hm
      exact (h.value_iff hm v).mpr (by omega)
    · cases hm

theorem length_block (h : Sorts xs order) (v : α) : (block xs order v).length = xs.count v := by
  have hle := h.block_le v
  unfold block
  rw [length_takeAt, List.length_range']
  intro k hk
  rw [List.mem_range'_1] at hk
  omega

/-- The sum of `c` ranks from `s + 1` on. -/
theorem sum_ranks (s c : ℕ) :
    ((List.range' s c).map fun k : ℕ => (k : ℚ) + 1).sum = c * (s + ((c : ℚ) + 1) / 2) := by
  induction c generalizing s with
  | zero => simp
  | succ c ih =>
    rw [List.range'_succ, List.map_cons, List.sum_cons, ih]
    push_cast
    ring

/-- What is written when the values `written` are done: the average rank at their positions, and at
    all others the place in the index array. -/
structure MeansWritten (xs : List α) (order : List ℕ) (written : List α) (ranks : List ℚ) :
    Prop where
  length : ranks.length = xs.length
  done : ∀ (p : ℕ) (v : α), xs[p]? = some v → v ∈ written → ranks[p]? = some (averageRank xs v)
  waiting : ∀ (k p : ℕ) (v : α), order[k]? = some p → xs[p]? = some v → v ∉ written →
    ranks[p]? = some ((k : ℚ) + 1)

/-- The mean of the places in a block is the average rank. -/
theorem meanAt_eq (h : Sorts xs order) {written : List α} {ranks : List ℚ}
    (hranks : MeansWritten xs order written ranks) {v : α} (hv : v ∈ xs) (hwaiting : v ∉ written) :
    meanAt ranks (positions xs v) = averageRank xs v := by
  have hperm := positions_perm h v
  have hsum : (takeAt ranks (positions xs v)).sum =
      ((List.range' (below xs v) (xs.count v)).map fun k : ℕ => (k : ℚ) + 1).sum := by
    have htake : (takeAt ranks (positions xs v)).Perm (takeAt ranks (block xs order v)) :=
      hperm.filterMap (ranks[·]?)
    have hplaces : takeAt ranks (block xs order v) =
        (List.range' (below xs v) (xs.count v)).map fun k : ℕ => (k : ℚ) + 1 := by
      unfold takeAt block takeAt
      rw [List.filterMap_filterMap, ← List.filterMap_eq_map]
      apply List.filterMap_congr
      intro k hk
      rw [List.mem_range'_1] at hk
      have hle := h.block_le v
      have hp := List.getElem?_eq_getElem (show k < order.length by omega)
      rw [hp]
      exact hranks.waiting k _ v hp ((h.value_iff hp v).mpr hk) hwaiting
    rw [htake.sum_eq, hplaces]
  have hpos : (0 : ℚ) < xs.count v := by exact_mod_cast List.count_pos_iff.mpr hv
  unfold meanAt averageRank
  rw [hsum, sum_ranks, hperm.length_eq, length_block h, mul_div_cancel_left₀ _ (ne_of_gt hpos)]

theorem meansWritten_step (h : Sorts xs order) {written : List α} {ranks : List ℚ}
    (hranks : MeansWritten xs order written ranks) {v : α} (hv : v ∈ xs) (hwaiting : v ∉ written) :
    MeansWritten xs order (v :: written) (meanTies xs ranks (v, xs.count v)) := by
  have hpos : 0 < xs.count v := List.count_pos_iff.mpr hv
  unfold meanTies
  by_cases hties : 1 < xs.count v
  · rw [if_pos hties, meanAt_eq h hranks hv hwaiting]
    refine ⟨by rw [length_setAll]; exact hranks.length, fun p w hw hmem => ?_,
      fun k p w hk hw hmem => ?_⟩
    · have hp := (List.getElem?_eq_some_iff.mp hw).1
      rw [getElem?_setAll _ _ _ _ (by rw [hranks.length]; exact hp)]
      by_cases heq : w = v
      · rw [if_pos (mem_positions.mpr (heq ▸ hw)), heq]
      · have hnot : p ∉ positions xs v := by
          intro hin
          rw [mem_positions, hw] at hin
          exact heq (Option.some.inj hin)
        rw [if_neg hnot]
        exact hranks.done p w hw ((List.mem_cons.mp hmem).resolve_left heq)
    · have hp := (List.getElem?_eq_some_iff.mp hw).1
      have hnot : p ∉ positions xs v := by
        intro hin
        rw [mem_positions, hw] at hin
        exact hmem (List.mem_cons.mpr (.inl (Option.some.inj hin)))
      rw [getElem?_setAll _ _ _ _ (by rw [hranks.length]; exact hp), if_neg hnot]
      exact hranks.waiting k p w hk hw fun hin => hmem (List.mem_cons_of_mem _ hin)
  · rw [if_neg hties]
    refine ⟨hranks.length, fun p w hw hmem => ?_, fun k p w hk hw hmem => ?_⟩
    · by_cases heq : w = v
      · -- a value that is there once has its average rank already
        subst heq
        obtain ⟨k, hk⟩ := h.exists_index (List.getElem?_eq_some_iff.mp hw).1
        have hrun := (h.value_iff hk w).mp hw
        have hplace : k = below xs w := by omega
        have honce : xs.count w = 1 := by omega
        rw [hranks.waiting k p w hk hw hwaiting]
        unfold averageRank
        rw [honce, hplace]
        norm_num
      · exact hranks.done p w hw ((List.mem_cons.mp hmem).resolve_left heq)
    · exact hranks.waiting k p w hk hw fun hin => hmem (List.mem_cons_of_mem _ hin)

theorem meansWritten_foldl (h : Sorts xs order) (values : List α) (hnodup : values.Nodup)
    (hvalues : ∀ v ∈ values, v ∈ xs) {written : List α} (hnew : ∀ v ∈ values, v ∉ written)
    {ranks : List ℚ} (hranks : MeansWritten xs order written ranks) :
    MeansWritten xs order (values.reverse ++ written)
      ((values.map fun v => (v, xs.count v)).foldl (meanTies xs) ranks) := by
  induction values generalizing written ranks with
  | nil => exact hranks
  | cons v values ih =>
    obtain ⟨hv, hrest⟩ := List.nodup_cons.mp hnodup
    have hstep := meansWritten_step h hranks (hvalues v List.mem_cons_self)
      (hnew v List.mem_cons_self)
    rw [List.reverse_cons, List.append_assoc]
    apply ih hrest (fun w hw => hvalues w (List.mem_cons_of_mem _ hw)) _ hstep
    intro w hw hin
    rcases List.mem_cons.mp hin with rfl | hin
    · exact hv hw
    · exact hnew w (List.mem_cons_of_mem _ hw) hin

/-- Placing the ranks and then taking the mean of every value gives the average ranks, whatever the
    array held. -/
theorem meanTies_eq (h : Sorts xs order) {garbage : List ℚ} (hlength : garbage.length = xs.length) :
    (uniqueCounts xs).foldl (meanTies xs)
      (scatter garbage order ((List.range xs.length).map fun k : ℕ => (k : ℚ) + 1)) =
      averageRanks xs := by
  have hplaced : MeansWritten xs order []
      (scatter garbage order ((List.range xs.length).map fun k : ℕ => (k : ℚ) + 1)) := by
    refine ⟨by rw [length_scatter]; exact hlength, fun p v _ hv => absurd hv List.not_mem_nil,
      fun k p v hk hv _ => ?_⟩
    have hklt := (List.getElem?_eq_some_iff.mp hk).1
    rw [h.length_eq] at hklt
    apply getElem?_scatter h.nodup _ hk
    · rw [List.getElem?_map, List.getElem?_range hklt]
      rfl
    · intro q hq
      rw [hlength]
      exact h.lt_length q hq
  have hmem : ∀ v, v ∈ (sortBy id xs).dedup ↔ v ∈ xs := by
    intro v
    rw [List.mem_dedup, mem_sortBy]
  have hdone := meansWritten_foldl h _ (List.nodup_dedup (sortBy id xs))
    (fun v hv => (hmem v).mp hv) (fun v _ => List.not_mem_nil) hplaced
  rw [List.append_nil] at hdone
  unfold uniqueCounts averageRanks
  apply List.ext_getElem?
  intro p
  rw [List.getElem?_map]
  by_cases hp : p < xs.length
  · have hv := List.getElem?_eq_getElem hp
    rw [hv]
    apply hdone.done p _ hv
    rw [List.mem_reverse, hmem]
    exact List.getElem_mem hp
  · rw [List.getElem?_eq_none (by rw [hdone.length]; omega), List.getElem?_eq_none (by omega)]
    rfl

theorem placedRanks_eq (np : Numpy α) (xs : List α) : placedRanks np xs = averageRanks xs := by
  have h := np.sorts xs
  exact meanTies_eq h ((np.length_empty _).trans h.length_eq)

/-! ## The stable order -/

theorem takeAt_stableArgsort (xs : List α) :
    takeAt xs (stableArgsort xs) = (sortBy Prod.fst xs.zipIdx).map Prod.fst := by
  have hmem : ∀ vi ∈ sortBy Prod.fst xs.zipIdx, xs[vi.2]? = some vi.1 := by
    intro vi hvi
    rw [mem_sortBy] at hvi
    exact List.mem_zipIdx_iff_getElem?.mp hvi
  unfold takeAt stableArgsort
  rw [List.filterMap_map, ← List.filterMap_eq_map]
  apply List.filterMap_congr
  intro vi hvi
  exact hmem vi hvi

theorem stableArgsort_sorts (xs : List α) : Sorts xs (stableArgsort xs) := by
  constructor
  · have hperm := (sortBy_perm Prod.fst xs.zipIdx).map Prod.snd
    rwa [List.zipIdx_map_snd, ← List.range_eq_range'] at hperm
  · rw [takeAt_stableArgsort, List.pairwise_map]
    exact sortBy_pairwise Prod.fst xs.zipIdx

/-- A numpy with a stable `argsort` and zeros in its arrays. -/
def stableNumpy : Numpy α where
  argsort := stableArgsort
  empty n := List.replicate n 0
  sorts := stableArgsort_sorts
  length_empty _ := List.length_replicate

/-! ## What average ranks do -/

/-- Average ranks give equal values equal ranks and follow every permutation. -/
theorem tieAware_of_eq {rank : List α → List ℚ} (h : ∀ xs, rank xs = averageRanks xs) :
    TieAware rank := by
  refine ⟨fun xs => ?_, fun xs i v hv => ?_, fun xs σ hσ => ?_, fun xs i j hij => ?_⟩
  · rw [h, averageRanks, List.length_map]
  · rw [h, averageRanks, List.getElem?_map, hv, Option.map_some, averageRank, below,
      List.count_eq_countP]
    rfl
  · have hrank : averageRank (takeAt xs σ) = averageRank xs :=
      funext (averageRank_perm (takeAt_perm hσ))
    rw [h, h, averageRanks, averageRanks, takeAt_map, hrank]
  · rw [h, averageRanks, List.getElem?_map, List.getElem?_map, hij]

/-! ## Related pairs -/

section Related

variable {β γ : Type*}

/-- The pairs with an entry of each list that are related. -/
def countPairs (r : β → γ → Bool) (xs : List β) (ys : List γ) : ℕ :=
  (xs ×ˢ ys).countP fun ab => r ab.1 ab.2

theorem countPairs_nil (r : β → γ → Bool) (ys : List γ) : countPairs r [] ys = 0 := rfl

theorem countPairs_nil_right (r : β → γ → Bool) (xs : List β) : countPairs r xs [] = 0 := by
  unfold countPairs
  rw [List.product_nil]
  rfl

theorem countPairs_cons (r : β → γ → Bool) (a : β) (xs : List β) (ys : List γ) :
    countPairs r (a :: xs) ys = ys.countP (r a) + countPairs r xs ys := by
  unfold countPairs
  rw [List.product_cons, List.countP_append, List.countP_map]
  rfl

theorem countPairs_append_right (r : β → γ → Bool) (xs : List β) (ys zs : List γ) :
    countPairs r xs (ys ++ zs) = countPairs r xs ys + countPairs r xs zs := by
  induction xs with
  | nil => rfl
  | cons a xs ih =>
    rw [countPairs_cons, countPairs_cons, countPairs_cons, ih, List.countP_append]
    omega

theorem countPairs_cons_right (r : β → γ → Bool) (xs : List β) (b : γ) (ys : List γ) :
    countPairs r xs (b :: ys) = xs.countP (fun a => r a b) + countPairs r xs ys := by
  induction xs with
  | nil => rfl
  | cons a xs ih =>
    rw [countPairs_cons, countPairs_cons, ih, List.countP_cons, List.countP_cons]
    omega

/-- The pairs can be counted from either side. -/
theorem countPairs_swap (r : β → γ → Bool) (xs : List β) (ys : List γ) :
    countPairs r xs ys = countPairs (fun b a => r a b) ys xs := by
  induction xs with
  | nil => rw [countPairs_nil, countPairs_nil_right]
  | cons a xs ih => rw [countPairs_cons, countPairs_cons_right, ih]

/-- The pairs do not depend on the order of the lists. -/
theorem countPairs_perm (r : β → γ → Bool) {xs xs' : List β} {ys ys' : List γ}
    (hx : xs.Perm xs') (hy : ys.Perm ys') : countPairs r xs ys = countPairs r xs' ys' :=
  (hx.product hy).countP_eq _

end Related

/-! ## Pairs won and tied -/

/-- The pairs whose first entry is the larger one. -/
def won (xs ys : List α) : ℕ := countPairs (fun a b => decide (b < a)) xs ys

/-- The pairs of equal entries. -/
def tied (xs ys : List α) : ℕ := countPairs (fun a b => decide (b = a)) xs ys

theorem tied_swap (xs ys : List α) : tied xs ys = tied ys xs := by
  unfold tied
  rw [countPairs_swap]
  congr 1
  funext b a
  rw [decide_eq_decide]
  exact eq_comm

/-- Every entry is smaller than `a`, equal to it or larger. -/
theorem countP_trichotomy (ys : List α) (a : α) :
    ys.countP (fun b => decide (b < a)) + ys.countP (fun b => decide (b = a)) +
      ys.countP (fun b => decide (a < b)) = ys.length := by
  induction ys with
  | nil => rfl
  | cons b ys ih =>
    rw [List.length_cons]
    rcases lt_trichotomy b a with hlt | rfl | hgt
    · simp only [List.countP_cons, hlt, hlt.ne, hlt.not_gt, decide_true, decide_false]
      simp only [Bool.false_eq_true, if_true, if_false]
      omega
    · simp only [List.countP_cons, lt_irrefl, decide_true, decide_false]
      simp only [Bool.false_eq_true, if_true, if_false]
      omega
    · simp only [List.countP_cons, hgt, hgt.ne', hgt.not_gt, decide_true, decide_false]
      simp only [Bool.false_eq_true, if_true, if_false]
      omega

/-- Every pair is won, tied or lost. -/
theorem won_add_tied_add_won (xs ys : List α) :
    won xs ys + tied xs ys + won ys xs = xs.length * ys.length := by
  have hlost : won ys xs = countPairs (fun a b => decide (a < b)) xs ys := countPairs_swap _ ys xs
  rw [hlost]
  unfold won tied
  induction xs with
  | nil => rw [List.length_nil, Nat.zero_mul]; rfl
  | cons a xs ih =>
    have ha := countP_trichotomy ys a
    rw [countPairs_cons, countPairs_cons, countPairs_cons, List.length_cons, Nat.succ_mul]
    have ih' := ih (countPairs_swap _ ys xs)
    omega

/-- The ranks of some entries among a list are the pairs they win, and half of those they tie. -/
theorem sum_averageRank (xs ys : List α) :
    (xs.map (averageRank ys)).sum = won xs ys + ((tied xs ys : ℚ) + xs.length) / 2 := by
  induction xs with
  | nil => unfold won tied; rw [countPairs_nil, countPairs_nil]; simp
  | cons a xs ih =>
    have hcount : ys.count a = ys.countP fun b => decide (b = a) := by
      rw [List.count_eq_countP]
      rfl
    unfold won tied at ih ⊢
    rw [List.map_cons, List.sum_cons, ih, countPairs_cons, countPairs_cons, List.length_cons]
    unfold averageRank below
    rw [hcount]
    push_cast
    ring

/-- The rank sum of one of two pooled lists. -/
theorem sum_averageRank_pooled (xs ys : List α) :
    (xs.map (averageRank (xs ++ ys))).sum =
      won xs ys + (tied xs ys : ℚ) / 2 + (xs.length : ℚ) * (xs.length + 1) / 2 := by
  have hself : (won xs xs : ℚ) + tied xs xs + won xs xs = xs.length * xs.length := by
    exact_mod_cast won_add_tied_add_won xs xs
  have hwon : won xs (xs ++ ys) = won xs xs + won xs ys := countPairs_append_right _ xs xs ys
  have htied : tied xs (xs ++ ys) = tied xs xs + tied xs ys := countPairs_append_right _ xs xs ys
  rw [sum_averageRank, hwon, htied]
  push_cast
  linarith

end Lib.TieRanks
