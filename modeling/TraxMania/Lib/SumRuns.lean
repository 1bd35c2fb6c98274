import TraxMania.Lib.Numpy
import Mathlib.Algebra.BigOperators.Group.List.Basic

/-
  Sums by key over arrays, as numpy makes them: a stable `argsort`, the starts of the runs of
  equal keys, `reduceat`. `sumRuns` is the same as a recursion over the rows, and on sorted rows it
  has every key once, with the total of the key (`sumRuns_sortBy`).

  Nothing here is about a program in particular.
-/

namespace Lib.SumRuns

open Lib.SortBy Lib.Numpy

variable {κ V α β : Type*}

/-! ## The array operations -/

/-- `argsort(keys, kind="stable")`. -/
def argsort [LinearOrder κ] (keys : List κ) : List Nat :=
  (sortBy Prod.fst keys.zipIdx).map Prod.snd

/-- `boundary`: the entries that differ from the one before them, and the first. -/
def boundary [DecidableEq κ] (keys : List κ) : List Bool :=
  match keys with
  | [] => []
  | _ :: rest => true :: List.zipWith (fun a b => decide (a ≠ b)) rest keys

/-- `flatnonzero(bs)`. -/
def flatnonzero (bs : List Bool) : List Nat := (bs.zipIdx.filter Prod.fst).map Prod.snd

/-- `add.reduceat(xs, starts)`, for increasing starts. -/
def reduceat [Add V] [Zero V] (xs : List V) : List Nat → List V
  | [] => []
  | [s] => [(xs.drop s).sum]
  | s :: s' :: starts => ((xs.drop s).take (s' - s)).sum :: reduceat xs (s' :: starts)

/-- Entries taken in the order of their keys are the entries sorted by key. -/
theorem takeAt_argsort [LinearOrder κ] (key : α → κ) (f : α → β) (rows : List α) :
    takeAt (rows.map f) (argsort (rows.map key)) = (sortBy key rows).map f := by
  have hzip : (rows.map key).zipIdx = rows.zipIdx.map fun r => (key r.1, r.2) := by
    rw [List.zipIdx_map]
    rfl
  have hsorted : sortBy key rows =
      (sortBy (fun r : α × Nat => key r.1) rows.zipIdx).map Prod.fst := by
    have hfst : rows.zipIdx.map Prod.fst = rows := List.zipIdx_map_fst 0 rows
    rw [← sortBy_map, hfst]
  have hget : ∀ r ∈ sortBy (fun r : α × Nat => key r.1) rows.zipIdx,
      (rows.map f)[r.2]? = some (f r.1) := by
    intro r hr
    rw [mem_sortBy, List.mem_zipIdx_iff_getElem?] at hr
    rw [List.getElem?_map, hr]
    rfl
  unfold argsort takeAt
  rw [hzip, sortBy_map, List.map_map, List.filterMap_map, hsorted, List.map_map]
  exact (List.filterMap_congr hget).trans (congrFun List.filterMap_eq_map _)

/-! ## Runs as a recursion -/

/-- Adjacent rows of one key are added up. -/
def sumRuns [DecidableEq κ] [Add V] : List (κ × V) → List (κ × V)
  | [] => []
  | (k, v) :: rows =>
    match sumRuns rows with
    | [] => [(k, v)]
    | (k', v') :: out => if k' = k then (k, v + v') :: out else (k, v) :: (k', v') :: out

/-- The starts of the runs. -/
def starts [DecidableEq κ] (keys : List κ) : List Nat := flatnonzero (boundary keys)

theorem flatnonzero_cons (b : Bool) (bs : List Bool) :
    flatnonzero (b :: bs) = (if b then [0] else []) ++ (flatnonzero bs).map (· + 1) := by
  have hshift : (bs.zipIdx 1).filter Prod.fst =
      (bs.zipIdx.filter Prod.fst).map fun p => (p.1, p.2 + 1) := by
    rw [List.zipIdx_succ, List.filter_map]
    rfl
  unfold flatnonzero
  rw [List.zipIdx_cons, List.filter_cons, hshift]
  cases b
  · rw [if_neg Bool.false_ne_true, if_neg Bool.false_ne_true, List.map_map, List.map_map]
    rfl
  · rw [if_pos rfl, if_pos rfl, List.map_cons, List.map_map, List.map_map]
    rfl

/-- What one more key in front does to the starts. -/
theorem starts_cons_cons [DecidableEq κ] (k k' : κ) (rest : List κ) :
    ∃ later, starts (k' :: rest) = 0 :: later ∧
      starts (k :: k' :: rest) =
        0 :: if k' = k then later.map (· + 1) else (0 :: later).map (· + 1) := by
  refine ⟨(flatnonzero (List.zipWith (fun a b => decide (a ≠ b)) rest (k' :: rest))).map (· + 1),
    flatnonzero_cons true _, ?_⟩
  show flatnonzero (true :: decide (k' ≠ k) ::
    List.zipWith (fun a b => decide (a ≠ b)) rest (k' :: rest)) = _
  rw [flatnonzero_cons, flatnonzero_cons]
  by_cases h : k' = k
  · rw [if_pos h, decide_eq_false (not_not_intro h)]
    rfl
  · rw [if_neg h, decide_eq_true h]
    rfl

theorem takeAt_succ (x : α) (xs : List α) (indices : List Nat) :
    takeAt (x :: xs) (indices.map (· + 1)) = takeAt xs indices := by
  unfold takeAt
  rw [List.filterMap_map]
  rfl

theorem takeAt_zero (x : α) (xs : List α) (indices : List Nat) :
    takeAt (x :: xs) (0 :: indices) = x :: takeAt (x :: xs) indices := rfl

theorem reduceat_succ [AddMonoid V] (x : V) (xs : List V) (indices : List Nat) :
    reduceat (x :: xs) (indices.map (· + 1)) = reduceat xs indices := by
  induction indices with
  | nil => rfl
  | cons s indices ih =>
    cases indices with
    | nil => rfl
    | cons s' indices =>
      have hwidth : s' + 1 - (s + 1) = s' - s := Nat.add_sub_add_right s' 1 s
      rw [List.map_cons] at ih
      rw [List.map_cons, List.map_cons, reduceat, reduceat, ih, hwidth, List.drop_succ_cons]

/-- A row in front of a run of its key is added to the run. -/
theorem reduceat_front [AddMonoid V] (x : V) (xs : List V) (later : List Nat) :
    ∃ sum sums, reduceat xs (0 :: later) = sum :: sums ∧
      reduceat (x :: xs) (0 :: later.map (· + 1)) = (x + sum) :: sums := by
  cases later with
  | nil => exact ⟨xs.sum, [], rfl, by rw [List.map_nil, reduceat, List.drop_zero, List.sum_cons]⟩
  | cons s later =>
    refine ⟨(xs.take s).sum, reduceat xs (s :: later), rfl, ?_⟩
    have hrest := reduceat_succ x xs (s :: later)
    rw [List.map_cons] at hrest ⊢
    rw [reduceat, hrest, List.drop_zero, Nat.sub_zero, List.take_succ_cons, List.sum_cons]

/-- A row in front of a run of another key is a run of its own. -/
theorem reduceat_new [AddMonoid V] (x : V) (xs : List V) (later : List Nat) :
    reduceat (x :: xs) (0 :: (0 :: later).map (· + 1)) = x :: reduceat xs (0 :: later) := by
  have hrest := reduceat_succ x xs (0 :: later)
  rw [List.map_cons] at hrest ⊢
  rw [reduceat, hrest, List.drop_zero, Nat.zero_add, Nat.sub_zero, List.take_succ_cons,
    List.take_zero, List.sum_singleton]

/-- What a row in front does to the runs. -/
theorem sumRuns_cases [DecidableEq κ] [Add V] (k : κ) (v : V) (rows : List (κ × V)) :
    (sumRuns rows = [] ∧ sumRuns ((k, v) :: rows) = [(k, v)]) ∨
      ∃ k' v' out, sumRuns rows = (k', v') :: out ∧ sumRuns ((k, v) :: rows) =
        if k' = k then (k, v + v') :: out else (k, v) :: (k', v') :: out := by
  rw [sumRuns]
  cases h : sumRuns rows with
  | nil => exact Or.inl ⟨rfl, rfl⟩
  | cons run out => exact Or.inr ⟨run.1, run.2, out, rfl, rfl⟩

/-- The first run is that of the first key. -/
theorem sumRuns_cons [DecidableEq κ] [Add V] (k : κ) (v : V) (rows : List (κ × V)) :
    ∃ w out, sumRuns ((k, v) :: rows) = (k, w) :: out := by
  rcases sumRuns_cases k v rows with ⟨-, h⟩ | ⟨k', v', out, -, h⟩
  · exact ⟨v, [], h⟩
  · rw [h]
    split
    · exact ⟨v + v', out, rfl⟩
    · exact ⟨v, (k', v') :: out, rfl⟩

/-- The arrays give the runs: the keys at the starts, and what `reduceat` adds up. -/
theorem starts_spec [DecidableEq κ] [AddMonoid V] (rows : List (κ × V)) :
    takeAt (rows.map Prod.fst) (starts (rows.map Prod.fst)) = (sumRuns rows).map Prod.fst ∧
      reduceat (rows.map Prod.snd) (starts (rows.map Prod.fst)) =
        (sumRuns rows).map Prod.snd := by
  induction rows with
  | nil => exact ⟨rfl, rfl⟩
  | cons row rows ih =>
    obtain ⟨k, v⟩ := row
    cases rows with
    | nil =>
      refine ⟨rfl, ?_⟩
      show [(([v] : List V).drop 0).sum] = [v]
      rw [List.drop_zero, List.sum_singleton]
    | cons row rows =>
      obtain ⟨k', v'⟩ := row
      obtain ⟨w, out, hout⟩ := sumRuns_cons k' v' rows
      obtain ⟨later, hlater, hstarts⟩ := starts_cons_cons k k' (rows.map Prod.fst)
      rw [List.map_cons, List.map_cons] at ih
      rw [hout, hlater] at ih
      obtain ⟨hkeys, hsums⟩ := ih
      rw [sumRuns, hout, List.map_cons, List.map_cons, List.map_cons, List.map_cons, hstarts]
      dsimp only at hkeys hsums ⊢
      by_cases h : k' = k
      · rw [if_pos h, if_pos h]
        obtain ⟨sum, sums, hrest, hfront⟩ := reduceat_front v (v' :: rows.map Prod.snd) later
        have hlaterKeys := (List.cons.inj hkeys).2
        rw [hfront, takeAt_zero, takeAt_succ]
        rw [hrest] at hsums
        obtain ⟨hsum, hlaterSums⟩ := List.cons.inj hsums
        rw [hsum, hlaterSums]
        exact ⟨congrArg (k :: ·) hlaterKeys, rfl⟩
      · rw [if_neg h, if_neg h, reduceat_new, hsums, takeAt_zero, takeAt_succ, hkeys]
        exact ⟨rfl, rfl⟩

/-! ## Runs of sorted rows -/

section Sorted

variable [LinearOrder κ] [AddCommMonoid V]

/-- What the rows of a key add up to. -/
def totalAt (rows : List (κ × V)) (k : κ) : V :=
  ((rows.filter fun row => decide (row.1 = k)).map Prod.snd).sum

theorem totalAt_cons (row : κ × V) (rows : List (κ × V)) (k : κ) :
    totalAt (row :: rows) k = (if row.1 = k then row.2 else 0) + totalAt rows k := by
  unfold totalAt
  rw [List.filter_cons]
  by_cases h : row.1 = k
  · rw [if_pos (decide_eq_true h), if_pos h, List.map_cons, List.sum_cons]
  · rw [if_neg (by simpa using h), if_neg h, zero_add]

theorem totalAt_append (rows rows' : List (κ × V)) (k : κ) :
    totalAt (rows ++ rows') k = totalAt rows k + totalAt rows' k := by
  unfold totalAt
  rw [List.filter_append, List.map_append, List.sum_append]

theorem totalAt_perm {rows rows' : List (κ × V)} (h : rows.Perm rows') (k : κ) :
    totalAt rows k = totalAt rows' k := ((h.filter _).map _).sum_eq

/-- A key that no row has adds up to nothing. -/
theorem totalAt_of_notMem {rows : List (κ × V)} {k : κ} (h : k ∉ rows.map Prod.fst) :
    totalAt rows k = 0 := by
  have hnone : rows.filter (fun row => decide (row.1 = k)) = [] := by
    rw [List.filter_eq_nil_iff]
    intro row hrow hk
    exact h (List.mem_map.mpr ⟨row, hrow, of_decide_eq_true hk⟩)
  unfold totalAt
  rw [hnone]
  rfl

/-- A key that is there once adds up to its value. -/
theorem totalAt_of_nodup {rows : List (κ × V)} (h : (rows.map Prod.fst).Nodup) (k : κ) :
    totalAt rows k = (rows.lookup k).getD 0 := by
  induction rows with
  | nil => rfl
  | cons row rows ih =>
    obtain ⟨k₀, v₀⟩ := row
    obtain ⟨hnew, hrest⟩ := List.nodup_cons.mp h
    rw [totalAt_cons, List.lookup_cons]
    by_cases hk : k₀ = k
    · subst hk
      rw [if_pos rfl, totalAt_of_notMem hnew, add_zero, beq_self_eq_true]
      rfl
    · rw [if_neg hk, zero_add, beq_false_of_ne fun heq => hk heq.symm]
      exact ih hrest

/-- Distinct keys, each with its value. -/
theorem totalAt_zip_map {ks : List κ} (h : ks.Nodup) (f : κ → V) (k : κ) :
    totalAt (ks.zip (ks.map f)) k = if k ∈ ks then f k else 0 := by
  induction ks with
  | nil => rfl
  | cons k₀ ks ih =>
    obtain ⟨hnew, hrest⟩ := List.nodup_cons.mp h
    rw [List.map_cons, List.zip_cons_cons, totalAt_cons, ih hrest]
    dsimp only
    by_cases hk : k₀ = k
    · subst hk
      rw [if_pos rfl, if_neg hnew, if_pos List.mem_cons_self, add_zero]
    · have hmem : k ∈ k₀ :: ks ↔ k ∈ ks := by
        rw [List.mem_cons]
        exact ⟨fun h => h.resolve_left fun heq => hk heq.symm, Or.inr⟩
      rw [if_neg hk, zero_add]
      simp only [hmem]

/-- The keys of the runs are the keys of the rows. -/
theorem mem_sumRuns (rows : List (κ × V)) (k : κ) :
    k ∈ (sumRuns rows).map Prod.fst ↔ k ∈ rows.map Prod.fst := by
  induction rows with
  | nil => rfl
  | cons row rows ih =>
    obtain ⟨k₀, v₀⟩ := row
    rw [List.map_cons, List.mem_cons, ← ih]
    rcases sumRuns_cases k₀ v₀ rows with ⟨hnil, h⟩ | ⟨k', v', out, hout, h⟩
    · rw [hnil, h]
      exact List.mem_cons
    · rw [hout, h]
      split
      · next hk => simp [hk]
      · simp

/-- The runs of sorted rows begin with the keys of the rows. -/
theorem le_sumRuns {k : κ} {rows : List (κ × V)} (hfirst : ∀ row ∈ rows, k ≤ row.1) :
    ∀ k' ∈ (sumRuns rows).map Prod.fst, k ≤ k' := by
  intro k' hk'
  obtain ⟨row, hrow, rfl⟩ := List.mem_map.mp ((mem_sumRuns rows k').mp hk')
  exact hfirst row hrow

/-- In sorted rows every key has one run. -/
theorem sumRuns_pairwise {rows : List (κ × V)} (hrows : rows.Pairwise fun a b => a.1 ≤ b.1) :
    ((sumRuns rows).map Prod.fst).Pairwise (· < ·) := by
  induction rows with
  | nil => exact List.Pairwise.nil
  | cons row rows ih =>
    obtain ⟨k, v⟩ := row
    obtain ⟨hfirst, hrest⟩ := List.pairwise_cons.mp hrows
    have hsorted := ih hrest
    have hle := le_sumRuns hfirst
    rcases sumRuns_cases k v rows with ⟨hnil, h⟩ | ⟨k', v', out, hout, h⟩
    · rw [h]
      exact List.pairwise_singleton _ _
    · rw [hout, List.map_cons, List.pairwise_cons] at hsorted
      rw [hout, List.map_cons, List.forall_mem_cons] at hle
      rw [h]
      by_cases hk : k' = k
      · subst hk
        rw [if_pos rfl, List.map_cons, List.pairwise_cons]
        exact hsorted
      · have hlt : k < k' := lt_of_le_of_ne hle.1 fun heq => hk heq.symm
        rw [if_neg hk, List.map_cons, List.map_cons, List.pairwise_cons, List.pairwise_cons]
        refine ⟨List.forall_mem_cons.mpr ⟨hlt, fun key hkey => ?_⟩, hsorted⟩
        exact lt_trans hlt (hsorted.1 key hkey)

/-- In sorted rows a run has the total of its key. -/
theorem sumRuns_total {rows : List (κ × V)} (hrows : rows.Pairwise fun a b => a.1 ≤ b.1) :
    ∀ run ∈ sumRuns rows, run.2 = totalAt rows run.1 := by
  induction rows with
  | nil => exact fun run hrun => absurd hrun List.not_mem_nil
  | cons row rows ih =>
    obtain ⟨k, v⟩ := row
    obtain ⟨hfirst, hrest⟩ := List.pairwise_cons.mp hrows
    have htotals := ih hrest
    have hsorted := sumRuns_pairwise hrest
    have hle := le_sumRuns hfirst
    -- a run of another key has the total that it had without the first row
    have hother : ∀ run ∈ sumRuns rows, k ≠ run.1 → run.2 = totalAt ((k, v) :: rows) run.1 := by
      intro run hrun hne
      rw [totalAt_cons, if_neg hne, zero_add]
      exact htotals run hrun
    -- a key that no row is left for has the total of the first row
    have hfresh : k ∉ (sumRuns rows).map Prod.fst → v = totalAt ((k, v) :: rows) k := by
      intro hnone
      rw [mem_sumRuns] at hnone
      rw [totalAt_cons, if_pos rfl, totalAt_of_notMem hnone, add_zero]
    rcases sumRuns_cases k v rows with ⟨hnil, h⟩ | ⟨k', v', out, hout, h⟩
    · rw [hnil] at hfresh
      rw [h, List.forall_mem_singleton]
      exact hfresh List.not_mem_nil
    · rw [hout] at htotals hsorted hle hother hfresh
      rw [List.map_cons, List.pairwise_cons] at hsorted
      rw [List.map_cons, List.forall_mem_cons] at hle
      have hlater : ∀ run ∈ out, run.2 = totalAt ((k, v) :: rows) run.1 := by
        intro run hrun
        have hlt := hsorted.1 run.1 (List.mem_map_of_mem hrun)
        exact hother run (List.mem_cons_of_mem _ hrun) (ne_of_lt (lt_of_le_of_lt hle.1 hlt))
      rw [h]
      by_cases hk : k' = k
      · subst hk
        rw [if_pos rfl, List.forall_mem_cons]
        refine ⟨?_, hlater⟩
        rw [totalAt_cons, if_pos rfl, ← htotals _ List.mem_cons_self]
      · have hlt : k < k' := lt_of_le_of_ne hle.1 fun heq => hk heq.symm
        rw [if_neg hk, List.forall_mem_cons, List.forall_mem_cons]
        refine ⟨hfresh ?_, hother _ List.mem_cons_self (ne_of_lt hlt), hlater⟩
        rw [List.map_cons, List.mem_cons]
        rintro (heq | hmem)
        · exact hk heq.symm
        · exact absurd (hsorted.1 k hmem) (lt_asymm hlt)

end Sorted

/-! ## Sums by key -/

section Sums

variable [AddCommMonoid V]

/-- Sorted lists of the same numbers, none of them twice, are the same list. -/
theorem sorted_ext {xs ys : List Int} (hx : xs.Pairwise (· < ·)) (hy : ys.Pairwise (· < ·))
    (h : ∀ v, v ∈ xs ↔ v ∈ ys) : xs = ys := by
  have hperm : xs.Perm ys :=
    (List.perm_ext_iff_of_nodup (hx.imp fun h => ne_of_lt h) (hy.imp fun h => ne_of_lt h)).mpr h
  exact hperm.eq_of_pairwise (fun a b _ _ hab hba => absurd hab (lt_asymm hba)) hx hy

/-- Equal sets of numbers have the same distinct values. -/
theorem unique_congr {xs ys : List Int} (h : ∀ v, v ∈ xs ↔ v ∈ ys) :
    (unique xs).1 = (unique ys).1 :=
  sorted_ext (unique_sorted xs) (unique_sorted ys) fun v => by rw [mem_unique, mem_unique, h]

theorem sumRuns_sortBy (rows : List (Int × V)) :
    sumRuns (sortBy Prod.fst rows) =
      (unique (rows.map Prod.fst)).1.map fun k => (k, totalAt rows k) := by
  have hsorted := sumRuns_pairwise (sortBy_pairwise Prod.fst rows)
  have htotals := sumRuns_total (sortBy_pairwise Prod.fst rows)
  have hkeys : (sumRuns (sortBy Prod.fst rows)).map Prod.fst = (unique (rows.map Prod.fst)).1 := by
    refine sorted_ext hsorted (unique_sorted _) fun k => ?_
    rw [mem_sumRuns, mem_unique, ((sortBy_perm Prod.fst rows).map Prod.fst).mem_iff]
  rw [← hkeys, List.map_map]
  refine (List.map_id _).symm.trans (List.map_congr_left fun run hrun => ?_)
  have htotal := (htotals run hrun).trans (totalAt_perm (sortBy_perm Prod.fst rows) run.1)
  exact Prod.ext rfl htotal

/-- Sorting, the starts of the runs and `reduceat` give the distinct keys and their totals. -/
theorem reduce_by_key (key : α → Int) (val : α → V) (rows : List α) :
    let order := argsort (rows.map key)
    let keys := takeAt (rows.map key) order
    takeAt keys (starts keys) = (unique (rows.map key)).1 ∧
      reduceat (takeAt (rows.map val) order) (starts keys) =
        (unique (rows.map key)).1.map fun k => totalAt (rows.map fun r => (key r, val r)) k := by
  intro order keys
  have hsort : sortBy Prod.fst (rows.map fun r => (key r, val r)) =
      (sortBy key rows).map fun r => (key r, val r) := sortBy_map _ _ _
  have hfst : keys = (sortBy Prod.fst (rows.map fun r => (key r, val r))).map Prod.fst := by
    rw [hsort, List.map_map]
    exact takeAt_argsort key key rows
  have hsnd : takeAt (rows.map val) order =
      (sortBy Prod.fst (rows.map fun r => (key r, val r))).map Prod.snd := by
    rw [hsort, List.map_map]
    exact takeAt_argsort key val rows
  have hmap : (rows.map fun r => (key r, val r)).map Prod.fst = rows.map key := by
    rw [List.map_map]
    rfl
  obtain ⟨hkeys, hsums⟩ := starts_spec (sortBy Prod.fst (rows.map fun r => (key r, val r)))
  rw [← hfst] at hkeys hsums
  rw [hsnd, hkeys, hsums, sumRuns_sortBy, hmap, List.map_map, List.map_map]
  exact ⟨List.map_id _, rfl⟩

end Sums

end Lib.SumRuns
