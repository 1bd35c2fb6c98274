import TraxMania.Constraints.PairScan
import TraxMania.Lib.SumRuns
import Mathlib.Data.Nat.Cast.Defs

/-
  The counter of the placement grammar (`_Counter`): running totals in sorted arrays, and the
  arrays of the maps since the last fold. `Represents` is what the arrays and the pending ones say
  together; a fold changes nothing about it and leaves the dictionary of all calls (`final`).

  The numbers of `pairs` and `maps` are of any type with a commutative sum; an `int64` that wraps
  is one.
-/

namespace TraxMania.Constraints

open Lib.Numpy Lib.SumRuns

/-! ## The counter -/

/-- The arguments of a call of `add`: the keys of a map, sorted and distinct, with a count each. -/
structure AddCall (M : Type*) where
  keys : List Int
  counts : List M
  sorted : keys.Pairwise (· < ·)
  aligned : counts.length = keys.length

/-- `_Counter`. -/
structure Counter (M N : Type*) where
  keys : List Int
  pairs : List M
  maps : List N
  pendingKeys : List (List Int)
  pendingPairs : List (List M)
  pendingSize : Int

namespace Counter

variable {M N : Type*} [AddCommMonoid M] [AddCommMonoidWithOne N]

/-- `_Counter()`. -/
def empty : Counter M N := ⟨[], [], [], [], [], 0⟩

/-- `concatenate([self.keys, *self._pending_keys])`. -/
def allKeys (c : Counter M N) : List Int := c.keys ++ c.pendingKeys.flatten

/-- `concatenate([self.pairs, *self._pending_pairs])`. -/
def allPairs (c : Counter M N) : List M := c.pairs ++ c.pendingPairs.flatten

/-- `concatenate([self.maps] + [ones(k.size) for k in self._pending_keys])`. -/
def allMaps (c : Counter M N) : List N :=
  c.maps ++ c.pendingKeys.flatMap fun k => List.replicate k.length 1

/-- `compact()`. -/
def compact (c : Counter M N) : Counter M N :=
  if c.pendingKeys = [] then c
  else
    let order := argsort c.allKeys
    let keys := takeAt c.allKeys order
    let pairs := takeAt c.allPairs order
    let maps := takeAt c.allMaps order
    ⟨takeAt keys (starts keys), reduceat pairs (starts keys), reduceat maps (starts keys), [], [],
      0⟩

/-- `add(keys, counts)`; `compactEvery` is `_COMPACT_EVERY`. -/
def add (compactEvery : Int) (c : Counter M N) (keys : List Int) (counts : List M) :
    Counter M N :=
  if keys.length = 0 then c
  else
    let c := { c with
      pendingKeys := c.pendingKeys ++ [keys]
      pendingPairs := c.pendingPairs ++ [counts]
      pendingSize := c.pendingSize + keys.length }
    if compactEvery ≤ c.pendingSize then c.compact else c

/-- A counter after some calls of `add`. -/
def run (compactEvery : Int) (calls : List (AddCall M)) : Counter M N :=
  calls.foldl (fun c a => c.add compactEvery a.keys a.counts) empty

end Counter

/-! ## The dictionary of all calls -/

section Dictionary

variable {M : Type*} [AddCommMonoid M] (calls : List (AddCall M))

/-- The keys of a call with their counts. -/
def AddCall.rows (a : AddCall M) : List (Int × M) := a.keys.zip a.counts

/-- The distinct keys seen, in order. -/
def seenKeys : List Int := (unique (calls.flatMap AddCall.keys)).1

/-- The count a call gives to a key. -/
def AddCall.countOf (a : AddCall M) (k : Int) : M := (a.rows.lookup k).getD 0

/-- The sum of the counts of a key. -/
def sumOf (k : Int) : M := (calls.map fun a => a.countOf k).sum

/-- How many calls have the key. -/
def callsWith (k : Int) : Nat := calls.countP fun a => k ∈ a.keys

omit [AddCommMonoid M] in
theorem mem_seenKeys {k : Int} : k ∈ seenKeys calls ↔ ∃ a ∈ calls, k ∈ a.keys := by
  unfold seenKeys
  rw [mem_unique, List.mem_flatMap]

/-- The totals of the rows of a call. -/
theorem AddCall.totalAt_rows (a : AddCall M) (k : Int) : totalAt a.rows k = a.countOf k := by
  refine totalAt_of_nodup ?_ k
  have hfst : a.rows.map Prod.fst = a.keys := List.map_fst_zip (Nat.le_of_eq a.aligned.symm)
  rw [hfst]
  exact a.sorted.imp fun h => ne_of_lt h

theorem AddCall.countOf_of_notMem {a : AddCall M} {k : Int} (h : k ∉ a.keys) : a.countOf k = 0 := by
  rw [← a.totalAt_rows]
  refine totalAt_of_notMem fun hmem => h ?_
  obtain ⟨row, hrow, rfl⟩ := List.mem_map.mp hmem
  exact (List.of_mem_zip hrow).1

theorem sumOf_append_singleton (a : AddCall M) (k : Int) :
    sumOf (calls ++ [a]) k = sumOf calls k + a.countOf k := by
  unfold sumOf
  rw [List.map_append, List.sum_append, List.map_singleton, List.sum_singleton]

omit [AddCommMonoid M] in
theorem callsWith_append_singleton (a : AddCall M) (k : Int) :
    callsWith (calls ++ [a]) k = callsWith calls k + if k ∈ a.keys then 1 else 0 := by
  unfold callsWith
  rw [List.countP_append, List.countP_singleton]
  simp only [decide_eq_true_eq]

/-- A key that was not seen has no count. -/
theorem sumOf_of_unseen {k : Int} (h : k ∉ seenKeys calls) : sumOf calls k = 0 := by
  refine List.sum_eq_zero fun v hv => ?_
  obtain ⟨a, ha, rfl⟩ := List.mem_map.mp hv
  exact AddCall.countOf_of_notMem fun hk => h ((mem_seenKeys calls).mpr ⟨a, ha, hk⟩)

omit [AddCommMonoid M] in
theorem callsWith_of_unseen {k : Int} (h : k ∉ seenKeys calls) : callsWith calls k = 0 := by
  unfold callsWith
  rw [List.countP_eq_zero]
  intro a ha hk
  exact h ((mem_seenKeys calls).mpr ⟨a, ha, of_decide_eq_true hk⟩)

end Dictionary

namespace Counter

variable {M N : Type*} [AddCommMonoid M] [AddCommMonoidWithOne N]

/-- The arrays that stand for the calls. -/
def final (calls : List (AddCall M)) : Counter M N where
  keys := seenKeys calls
  pairs := (seenKeys calls).map (sumOf calls)
  maps := (seenKeys calls).map fun k => (callsWith calls k : N)
  pendingKeys := []
  pendingPairs := []
  pendingSize := 0

/-- The keys of the arrays and of the pending ones, each with its count. -/
def pairRows (c : Counter M N) : List (Int × M) := c.allKeys.zip c.allPairs

/-- The same with the numbers of maps. -/
def mapRows (c : Counter M N) : List (Int × N) := c.allKeys.zip c.allMaps

/-- Arrays and pending arrays together say what the calls say. -/
structure Represents (c : Counter M N) (calls : List (AddCall M)) : Prop where
  pairs_length : c.allPairs.length = c.allKeys.length
  maps_length : c.allMaps.length = c.allKeys.length
  keys : ∀ k, k ∈ c.allKeys ↔ ∃ a ∈ calls, k ∈ a.keys
  pairs : ∀ k, totalAt c.pairRows k = sumOf calls k
  maps : ∀ k, totalAt c.mapRows k = (callsWith calls k : N)

section Represents

variable {c : Counter M N} {calls : List (AddCall M)}

/-- A fold with pending arrays leaves the dictionary. -/
theorem Represents.compact_eq (h : c.Represents calls) (hpending : c.pendingKeys ≠ []) :
    c.compact = final calls := by
  have hkeys : c.pairRows.map Prod.fst = c.allKeys :=
    List.map_fst_zip (Nat.le_of_eq h.pairs_length.symm)
  have hpairs : c.pairRows.map Prod.snd = c.allPairs :=
    List.map_snd_zip (Nat.le_of_eq h.pairs_length)
  have hkeys' : c.mapRows.map Prod.fst = c.allKeys :=
    List.map_fst_zip (Nat.le_of_eq h.maps_length.symm)
  have hmaps : c.mapRows.map Prod.snd = c.allMaps :=
    List.map_snd_zip (Nat.le_of_eq h.maps_length)
  have hseen : (unique c.allKeys).1 = seenKeys calls := by
    refine unique_congr fun k => ?_
    rw [h.keys, List.mem_flatMap]
  have hp := reduce_by_key Prod.fst Prod.snd c.pairRows
  have hm := reduce_by_key Prod.fst Prod.snd c.mapRows
  rw [hkeys, hpairs, hseen] at hp
  rw [hkeys', hmaps, hseen] at hm
  unfold compact final
  rw [if_neg hpending]
  dsimp only
  rw [hp.1, hp.2, hm.2]
  congr 1
  · exact List.map_congr_left fun k _ => (congrArg (totalAt · k) (List.map_id _)).trans (h.pairs k)
  · exact List.map_congr_left fun k _ => (congrArg (totalAt · k) (List.map_id _)).trans (h.maps k)

theorem final_append_empty (calls : List (AddCall M)) {a : AddCall M} (ha : a.keys = []) :
    (final (calls ++ [a]) : Counter M N) = final calls := by
  have hnone : ∀ k, k ∉ a.keys := by
    intro k
    rw [ha]
    exact List.not_mem_nil
  have hseen : seenKeys (calls ++ [a]) = seenKeys calls := by
    unfold seenKeys
    rw [List.flatMap_append, List.flatMap_singleton, ha, List.append_nil]
  unfold final
  rw [hseen]
  congr 1
  · refine List.map_congr_left fun k _ => ?_
    rw [sumOf_append_singleton, AddCall.countOf_of_notMem (hnone k), add_zero]
  · refine List.map_congr_left fun k _ => ?_
    rw [callsWith_append_singleton, if_neg (hnone k), Nat.add_zero]

theorem represents_final (calls : List (AddCall M)) :
    (final calls : Counter M N).Represents calls := by
  have hnodup : (seenKeys calls).Nodup := (unique_sorted _).imp fun h => ne_of_lt h
  have hkeys : (final calls : Counter M N).allKeys = seenKeys calls := List.append_nil _
  have hpairs : (final calls : Counter M N).allPairs = (seenKeys calls).map (sumOf calls) :=
    List.append_nil _
  have hmaps : (final calls : Counter M N).allMaps =
      (seenKeys calls).map fun k => (callsWith calls k : N) := List.append_nil _
  exact {
    pairs_length := by rw [hkeys, hpairs, List.length_map]
    maps_length := by rw [hkeys, hmaps, List.length_map]
    keys := fun k => by rw [hkeys, mem_seenKeys]
    pairs := by
      intro k
      unfold pairRows
      rw [hkeys, hpairs, totalAt_zip_map hnodup]
      split
      · rfl
      · next hk => exact (sumOf_of_unseen calls hk).symm
    maps := by
      intro k
      unfold mapRows
      rw [hkeys, hmaps, totalAt_zip_map hnodup]
      split
      · rfl
      · next hk => rw [callsWith_of_unseen calls hk, Nat.cast_zero] }

/-- What `add` puts aside before it may fold. -/
def push (c : Counter M N) (keys : List Int) (counts : List M) : Counter M N :=
  { c with
    pendingKeys := c.pendingKeys ++ [keys]
    pendingPairs := c.pendingPairs ++ [counts]
    pendingSize := c.pendingSize + keys.length }

theorem add_eq (compactEvery : Int) (c : Counter M N) (keys : List Int) (counts : List M) :
    c.add compactEvery keys counts = if keys.length = 0 then c
      else if compactEvery ≤ (c.push keys counts).pendingSize then (c.push keys counts).compact
      else c.push keys counts := rfl

/-- A call that is put aside is said. -/
theorem Represents.push (h : c.Represents calls) (a : AddCall M) :
    (c.push a.keys a.counts).Represents (calls ++ [a]) := by
  have hkeys : (c.push a.keys a.counts).allKeys = c.allKeys ++ a.keys := by
    unfold allKeys Counter.push
    rw [List.flatten_append, List.flatten_singleton, List.append_assoc]
  have hpairs : (c.push a.keys a.counts).allPairs = c.allPairs ++ a.counts := by
    unfold allPairs Counter.push
    rw [List.flatten_append, List.flatten_singleton, List.append_assoc]
  have hmaps : (c.push a.keys a.counts).allMaps = c.allMaps ++ List.replicate a.keys.length 1 := by
    unfold allMaps Counter.push
    rw [List.flatMap_append, List.flatMap_singleton, List.append_assoc]
  exact {
    pairs_length := by
      rw [hkeys, hpairs, List.length_append, List.length_append, h.pairs_length, a.aligned]
    maps_length := by
      rw [hkeys, hmaps, List.length_append, List.length_append, h.maps_length,
        List.length_replicate]
    keys := by
      intro k
      rw [hkeys, List.mem_append, h.keys]
      simp only [List.mem_append, List.mem_singleton, or_and_right, exists_or, exists_eq_left]
    pairs := by
      intro k
      unfold pairRows
      rw [hkeys, hpairs, List.zip_append h.pairs_length.symm, totalAt_append,
        sumOf_append_singleton, ← a.totalAt_rows]
      exact congrArg (· + _) (h.pairs k)
    maps := by
      intro k
      unfold mapRows
      have hones : List.replicate a.keys.length (1 : N) = a.keys.map fun _ => 1 :=
        List.map_const'.symm
      have hnodup : a.keys.Nodup := a.sorted.imp fun h => ne_of_lt h
      rw [hkeys, hmaps, List.zip_append h.maps_length.symm, totalAt_append,
        callsWith_append_singleton, Nat.cast_add, hones, totalAt_zip_map hnodup, Nat.cast_ite,
        Nat.cast_one, Nat.cast_zero]
      exact congrArg (· + _) (h.maps k) }

/-- An empty call changes nothing in the dictionary. -/
theorem Represents.append_empty (h : c.Represents calls) {a : AddCall M} (ha : a.keys = []) :
    c.Represents (calls ++ [a]) := by
  have hnone : ∀ k, k ∉ a.keys := by
    intro k
    rw [ha]
    exact List.not_mem_nil
  exact { h with
    keys := by
      intro k
      rw [h.keys]
      simp only [List.mem_append, List.mem_singleton, or_and_right, exists_or, exists_eq_left]
      exact ⟨Or.inl, fun hk => hk.resolve_right (hnone k)⟩
    pairs := by
      intro k
      rw [sumOf_append_singleton, AddCall.countOf_of_notMem (hnone k), add_zero]
      exact h.pairs k
    maps := by
      intro k
      rw [callsWith_append_singleton, if_neg (hnone k), Nat.add_zero]
      exact h.maps k }

/-- What holds of a counter after some calls: it stands for them, and without pending arrays it is
    the dictionary itself. -/
structure Good (c : Counter M N) (calls : List (AddCall M)) : Prop where
  represents : c.Represents calls
  folded : c.pendingKeys = [] → c = final calls

theorem good_empty : (empty : Counter M N).Good ([] : List (AddCall M)) :=
  ⟨represents_final [], fun _ => rfl⟩

theorem Good.compact_eq (h : c.Good calls) : c.compact = final calls := by
  by_cases hpending : c.pendingKeys = []
  · unfold compact
    rw [if_pos hpending]
    exact h.folded hpending
  · exact h.represents.compact_eq hpending

/-- One call, whether it folds or not. -/
theorem Good.add (h : c.Good calls) (compactEvery : Int) (a : AddCall M) :
    (c.add compactEvery a.keys a.counts).Good (calls ++ [a]) := by
  rw [add_eq]
  split
  · next hempty =>
    have ha : a.keys = [] := List.length_eq_zero_iff.mp hempty
    refine ⟨h.represents.append_empty ha, fun hpending => ?_⟩
    rw [final_append_empty calls ha]
    exact h.folded hpending
  · have hpush := h.represents.push a
    have hpending : (c.push a.keys a.counts).pendingKeys ≠ [] :=
      List.append_ne_nil_of_right_ne_nil _ (List.cons_ne_nil _ _)
    split
    · rw [hpush.compact_eq hpending]
      exact ⟨represents_final _, fun _ => rfl⟩
    · exact ⟨hpush, fun hnil => absurd hnil hpending⟩

end Represents

theorem good_run (compactEvery : Int) (calls : List (AddCall M)) :
    (run compactEvery calls : Counter M N).Good calls := by
  have hloop : ∀ (rest done : List (AddCall M)) (c : Counter M N), c.Good done →
      (rest.foldl (fun c a => c.add compactEvery a.keys a.counts) c).Good (done ++ rest) := by
    intro rest
    induction rest with
    | nil =>
      intro done c h
      rw [List.append_nil]
      exact h
    | cons a rest ih =>
      intro done c h
      rw [List.foldl_cons, List.append_cons]
      exact ih (done ++ [a]) _ (h.add compactEvery a)
  exact hloop calls [] empty good_empty

/-- In any order the calls say the same. -/
theorem final_perm {calls calls' : List (AddCall M)} (h : calls.Perm calls') :
    (final calls : Counter M N) = final calls' := by
  have hseen : seenKeys calls = seenKeys calls' := by
    refine unique_congr fun k => ?_
    exact (h.flatMap_right AddCall.keys).mem_iff
  have hsum : sumOf calls = sumOf calls' := by
    funext k
    exact (h.map _).sum_eq
  have hcalls : callsWith calls = callsWith calls' := by
    funext k
    exact h.countP_eq _
  unfold final
  rw [hseen, hsum, hcalls]

/-- After a final fold the arrays are the distinct keys in order, the sums of their counts and the
    numbers of calls that have them, however the calls were folded on the way and in whatever order
    they came. -/
theorem counter_is_dictionary (compactEvery : Int) (calls : List (AddCall M)) :
    ((run compactEvery calls : Counter M N).compact.keys = seenKeys calls ∧
      (run compactEvery calls : Counter M N).compact.pairs = (seenKeys calls).map (sumOf calls) ∧
      (run compactEvery calls : Counter M N).compact.maps =
        (seenKeys calls).map fun k => (callsWith calls k : N)) ∧
    ∀ (compactEvery' : Int) (calls' : List (AddCall M)), calls.Perm calls' →
      (run compactEvery calls : Counter M N).compact = (run compactEvery' calls').compact := by
  have h := (good_run compactEvery calls : (run compactEvery calls : Counter M N).Good calls)
  refine ⟨?_, fun compactEvery' calls' hperm => ?_⟩
  · rw [h.compact_eq]
    exact ⟨rfl, rfl, rfl⟩
  · rw [h.compact_eq, (good_run compactEvery' calls').compact_eq, final_perm hperm]

end Counter

end TraxMania.Constraints
