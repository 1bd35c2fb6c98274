import Mathlib.Data.List.Basic
import Mathlib.Algebra.BigOperators.Group.List.Basic
import Mathlib.Data.List.Induction
import Mathlib.Algebra.Order.Group.Basic
import Mathlib.Order.Bounds.Basic

/-
  A sequence as its maximal runs of equal entries, each with its first and its last index, read
  off in one pass; and the longest run of entries with a property, in one pass that keeps the run
  that is open and the best one closed or open so far, with what the entries of each weigh. Last,
  the longest time that a walk with nondecreasing times spends on steps of one kind in a row.

  Nothing here is about a program in particular.
-/

namespace Lib

variable {S : Type}

/-- A stretch of equal entries, from index `first` to index `last`. -/
structure Run (S : Type) where
  state : S
  first : Nat
  last : Nat
deriving DecidableEq

section Pass

variable [DecidableEq S]

/-- The runs when the current one has the entry `s` from index `a` on and `i` is the next index. -/
def runsFrom (a : Nat) (s : S) (i : Nat) : List S → List (Run S)
  | [] => [⟨s, a, i - 1⟩]
  | x :: xs => if x = s then runsFrom a s (i + 1) xs else ⟨s, a, i - 1⟩ :: runsFrom i x (i + 1) xs

/-- The runs of a sequence. -/
def runs : List S → List (Run S)
  | [] => []
  | x :: xs => runsFrom 0 x 1 xs

end Pass

/-- The runs cover the indices from `a` up to `b`: each starts where the one before has ended, and
    none is empty. -/
def Tile (b : Nat) : Nat → List (Run S) → Prop
  | a, [] => a = b
  | a, r :: rs => r.first = a ∧ r.first ≤ r.last ∧ Tile b (r.last + 1) rs

/-- The maximal runs of a sequence, in order. -/
structure IsRuns (xs : List S) (rs : List (Run S)) : Prop where
  tile : Tile xs.length 0 rs
  equal : ∀ r ∈ rs, ∀ i, r.first ≤ i → i ≤ r.last → xs[i]? = some r.state
  maximal : rs.IsChain fun r r' => r.state ≠ r'.state

/-- Every run lies in the indices that are covered. -/
theorem Tile.bounds {b : Nat} {rs : List (Run S)} :
    ∀ {a : Nat}, Tile b a rs → ∀ r ∈ rs, r.first ≤ r.last ∧ r.last < b := by
  induction rs with
  | nil => exact fun _ _ hr => absurd hr List.not_mem_nil
  | cons r rs ih =>
    intro a h r' hr'
    obtain ⟨hfirst, hlast, hrest⟩ := h
    rcases List.mem_cons.mp hr' with rfl | hr'
    · refine ⟨hlast, ?_⟩
      cases rs with
      | nil =>
        have hend : r'.last + 1 = b := hrest
        omega
      | cons q qs =>
        have hq : q.first = r'.last + 1 := hrest.1
        have hbound := ih hrest q List.mem_cons_self
        omega
    · exact ih hrest r' hr'

section Correct

variable [DecidableEq S]

theorem tile_runsFrom (xs : List S) :
    ∀ {a i : Nat} {s : S}, a < i → Tile (i + xs.length) a (runsFrom a s i xs) := by
  induction xs with
  | nil =>
    intro a i s hi
    refine ⟨rfl, ?_, ?_⟩
    · show a ≤ i - 1
      omega
    · show i - 1 + 1 = i + 0
      omega
  | cons x xs ih =>
    intro a i s hi
    have hlen : i + (x :: xs).length = i + 1 + xs.length := by
      rw [List.length_cons]
      omega
    rw [hlen]
    unfold runsFrom
    split
    · exact ih (by omega)
    · refine ⟨rfl, ?_, ?_⟩
      · show a ≤ i - 1
        omega
      · show Tile (i + 1 + xs.length) (i - 1 + 1) _
        rw [Nat.sub_add_cancel (by omega : 1 ≤ i)]
        exact ih (Nat.lt_succ_self i)

/-- The current run keeps its entry and its first index. -/
theorem head_runsFrom (a : Nat) (s : S) (i : Nat) (xs : List S) :
    ∃ b rest, runsFrom a s i xs = ⟨s, a, b⟩ :: rest := by
  induction xs generalizing i with
  | nil => exact ⟨i - 1, [], rfl⟩
  | cons x xs ih =>
    unfold runsFrom
    split
    · exact ih (i + 1)
    · exact ⟨i - 1, _, rfl⟩

theorem maximal_runsFrom (xs : List S) :
    ∀ (a : Nat) (s : S) (i : Nat),
      (runsFrom a s i xs).IsChain fun r r' => r.state ≠ r'.state := by
  induction xs with
  | nil => exact fun a s i => List.IsChain.singleton _
  | cons x xs ih =>
    intro a s i
    unfold runsFrom
    split
    · exact ih a s (i + 1)
    · next hx =>
      obtain ⟨b, rest, hhead⟩ := head_runsFrom i x (i + 1) xs
      have hrest := ih i x (i + 1)
      rw [hhead] at hrest ⊢
      exact List.isChain_cons_cons.mpr ⟨fun h => hx h.symm, hrest⟩

/-- What the pass knows at index `i`: `xs` is what is left of `all`, and the entries of the current
    run are equal. -/
theorem equal_runsFrom {all : List S} (xs : List S) :
    ∀ {a i : Nat} {s : S}, all.drop i = xs → 0 < i →
      (∀ j, a ≤ j → j < i → all[j]? = some s) →
      ∀ r ∈ runsFrom a s i xs, ∀ j, r.first ≤ j → j ≤ r.last → all[j]? = some r.state := by
  induction xs with
  | nil =>
    intro a i s hdrop hi hs r hr j hj hj'
    obtain rfl : r = ⟨s, a, i - 1⟩ := List.mem_singleton.mp hr
    have hlast : j ≤ i - 1 := hj'
    exact hs j hj (by omega)
  | cons x xs ih =>
    intro a i s hdrop hi hs
    have hx : all[i]? = some x := by
      have h := congrArg (fun l => l[0]?) hdrop
      simpa using h
    have hrest : all.drop (i + 1) = xs := by
      rw [← List.drop_drop, hdrop]
      rfl
    unfold runsFrom
    split
    · next heq =>
      subst heq
      apply ih hrest (Nat.succ_pos i)
      intro j hj hj'
      rcases Nat.lt_succ_iff_lt_or_eq.mp hj' with hlt | rfl
      · exact hs j hj hlt
      · exact hx
    · intro r hr j hj hj'
      rcases List.mem_cons.mp hr with rfl | hr
      · have hlast : j ≤ i - 1 := hj'
        exact hs j hj (by omega)
      · refine ih hrest (Nat.succ_pos i) ?_ r hr j hj hj'
        intro k hk hk'
        obtain rfl : k = i := by omega
        exact hx

/-- The pass reads the maximal runs off. -/
theorem isRuns_runs (xs : List S) : IsRuns xs (runs xs) := by
  cases xs with
  | nil => exact ⟨rfl, fun _ hr => absurd hr List.not_mem_nil, List.IsChain.nil⟩
  | cons x xs =>
    refine ⟨?_, ?_, maximal_runsFrom xs 0 x 1⟩
    · have htile : Tile (1 + xs.length) 0 (runsFrom 0 x 1 xs) := tile_runsFrom xs Nat.one_pos
      rw [Nat.add_comm] at htile
      exact htile
    · apply equal_runsFrom xs rfl Nat.one_pos
      intro j _ hj
      obtain rfl : j = 0 := by omega
      rfl

end Correct

end Lib

namespace Lib.LongestRun

variable {α M : Type*}

/-- From index `i` on, `n` entries in a row have the property. -/
def IsRun (p : α → Bool) (xs : List α) (i n : Nat) : Prop :=
  i + n ≤ xs.length ∧ ∀ j a, i ≤ j → j < i + n → xs[j]? = some a → p a = true

/-- The first of the longest runs: it starts at `i` and has `n` entries. -/
structure IsFirstLongest (p : α → Bool) (xs : List α) (i n : Nat) : Prop where
  run : IsRun p xs i n
  longest : ∀ i' n', IsRun p xs i' n' → n' ≤ n
  first : ∀ i', IsRun p xs i' n → i ≤ i'

/-- What the entries of a run weigh. -/
def weight [Add M] [Zero M] (w : α → M) (xs : List α) (i n : Nat) : M :=
  (((xs.drop i).take n).map w).sum

/-- The length of a run and its weight. -/
structure Measured (M : Type*) where
  length : Nat
  weight : M

/-- One entry: the best run so far and the one that is open. -/
def step [Add M] [Zero M] (p : α → Bool) (w : α → M) (s : Measured M × Measured M) (a : α) :
    Measured M × Measured M :=
  if p a then
    let cur : Measured M := ⟨s.2.length + 1, s.2.weight + w a⟩
    (if s.1.length < cur.length then cur else s.1, cur)
  else (s.1, ⟨0, 0⟩)

variable {p : α → Bool} {xs : List α} {a : α} {i n : Nat}

/-- A run takes its entries from those with the property. -/
theorem IsRun.sublist (h : IsRun p xs i n) : ((xs.drop i).take n).Sublist (xs.filter p) := by
  have hsub : ((xs.drop i).take n).Sublist xs :=
    (List.take_sublist n _).trans (List.drop_sublist i xs)
  have hall : ((xs.drop i).take n).filter p = (xs.drop i).take n := by
    rw [List.filter_eq_self]
    intro a ha
    obtain ⟨j, hj⟩ := List.mem_iff_getElem?.mp ha
    rw [List.getElem?_take] at hj
    split at hj
    · rename_i hlt
      rw [List.getElem?_drop] at hj
      exact h.2 (i + j) a (Nat.le_add_right i j) (by omega) hj
    · cases hj
  rw [← hall]
  exact hsub.filter p

/-! ## Runs of a list with one more entry -/

theorem isRun_zero (h : i ≤ xs.length) : IsRun p xs i 0 :=
  ⟨h, fun _ _ hj hj' _ => by omega⟩

theorem IsRun.concat (h : IsRun p xs i n) : IsRun p (xs ++ [a]) i n := by
  refine ⟨?_, fun j b hj hj' hb => ?_⟩
  · rw [List.length_append]
    exact Nat.le_add_right_of_le h.1
  · have hlt : j < xs.length := by
      have hend := h.1
      omega
    rw [List.getElem?_append_left hlt] at hb
    exact h.2 j b hj hj' hb

/-- A run that ends before the new entry was there already. -/
theorem IsRun.of_concat (h : IsRun p (xs ++ [a]) i n) (hend : i + n ≤ xs.length) :
    IsRun p xs i n := by
  refine ⟨hend, fun j b hj hj' hb => h.2 j b hj hj' ?_⟩
  rw [List.getElem?_append_left (by omega)]
  exact hb

/-- A run that ends with the new entry. -/
theorem isRun_concat_iff (hend : i + n = xs.length) :
    IsRun p (xs ++ [a]) i (n + 1) ↔ IsRun p xs i n ∧ p a = true := by
  constructor
  · intro h
    have hlast : (xs ++ [a])[xs.length]? = some a := List.getElem?_concat_length
    refine ⟨⟨Nat.le_of_eq hend, fun j b hj hj' hb => h.2 j b hj (by omega) ?_⟩,
      h.2 xs.length a (by omega) (by omega) hlast⟩
    rw [List.getElem?_append_left (by omega)]
    exact hb
  · intro ⟨h, ha⟩
    refine ⟨by rw [List.length_append, List.length_singleton]; omega, fun j b hj hj' hb => ?_⟩
    by_cases hlt : j < xs.length
    · rw [List.getElem?_append_left hlt] at hb
      exact h.2 j b hj (by omega) hb
    · have hj : j = xs.length := by omega
      rw [hj, List.getElem?_concat_length] at hb
      rwa [← Option.some.inj hb]

theorem length_concat : (xs ++ [a]).length = xs.length + 1 := by
  rw [List.length_append, List.length_singleton]

/-- A run of the longer list was there already, or it ends with the new entry. -/
theorem IsRun.concat_cases (h : IsRun p (xs ++ [a]) i n) :
    IsRun p xs i n ∨ i + n = xs.length + 1 := by
  have hend := h.1
  rw [length_concat] at hend
  by_cases hle : i + n ≤ xs.length
  · exact Or.inl (h.of_concat hle)
  · exact Or.inr (by omega)

/-- The best run stays the best if no longer one ends with the new entry. -/
theorem IsFirstLongest.keep (h : IsFirstLongest p xs i n)
    (hnew : ∀ i' n', i' + n' = xs.length + 1 → IsRun p (xs ++ [a]) i' n' → n' ≤ n) :
    IsFirstLongest p (xs ++ [a]) i n := by
  refine ⟨h.run.concat, fun i' n' hrun => ?_, fun i' hrun => ?_⟩
  · rcases hrun.concat_cases with hold | hend
    · exact h.longest i' n' hold
    · exact hnew i' n' hend hrun
  · rcases hrun.concat_cases with hold | hend
    · exact h.first i' hold
    · have hbound := h.run.1
      omega

/-- A run that ends with the new entry becomes the best if it is longer than all before. -/
theorem IsFirstLongest.replace {k : Nat} (h : IsFirstLongest p xs i n) (hlt : n < k)
    (hrun : IsRun p (xs ++ [a]) (xs.length + 1 - k) k)
    (hnew : ∀ i' n', i' + n' = xs.length + 1 → IsRun p (xs ++ [a]) i' n' → n' ≤ k) :
    IsFirstLongest p (xs ++ [a]) (xs.length + 1 - k) k := by
  refine ⟨hrun, fun i' n' hrun' => ?_, fun i' hrun' => ?_⟩
  · rcases hrun'.concat_cases with hold | hend
    · have hle := h.longest i' n' hold
      omega
    · exact hnew i' n' hend hrun'
  · rcases hrun'.concat_cases with hold | hend
    · have hle := h.longest i' k hold
      omega
    · omega

section Weight

variable [AddMonoid M] {w : α → M}

theorem weight_concat (hend : i + n ≤ xs.length) : weight w (xs ++ [a]) i n = weight w xs i n := by
  unfold weight
  rw [List.drop_append_of_le_length (by omega), List.take_append_of_le_length]
  rw [List.length_drop]
  omega

theorem weight_concat_succ (hend : i + n = xs.length) :
    weight w (xs ++ [a]) i (n + 1) = weight w xs i n + w a := by
  have hlength : (xs.drop i).length = n := by
    rw [List.length_drop]
    omega
  unfold weight
  rw [List.drop_append_of_le_length (by omega), List.take_of_length_le, List.take_of_length_le]
  · rw [List.map_append, List.sum_append, List.map_singleton, List.sum_singleton]
  · omega
  · rw [List.length_append, List.length_singleton]
    omega

/-! ## The pass -/

/-- What the pass knows after `xs`. -/
structure Knows (p : α → Bool) (w : α → M) (xs : List α) (s : Measured M × Measured M) : Prop where
  best : ∃ i, IsFirstLongest p xs i s.1.length ∧ s.1.weight = weight w xs i s.1.length
  fits : s.2.length ≤ xs.length
  opened : IsRun p xs (xs.length - s.2.length) s.2.length
  longest : ∀ i n, i + n = xs.length → IsRun p xs i n → n ≤ s.2.length
  openWeight : s.2.weight = weight w xs (xs.length - s.2.length) s.2.length

theorem knows_nil : Knows p w [] (⟨0, 0⟩, ⟨0, 0⟩) := by
  refine ⟨⟨0, ⟨isRun_zero (Nat.le_refl 0), fun i n h => ?_, fun i _ => Nat.zero_le i⟩, rfl⟩,
    Nat.le_refl 0, isRun_zero (Nat.le_refl 0), fun i n h _ => ?_, rfl⟩
  · have hend : i + n ≤ 0 := h.1
    show n ≤ 0
    omega
  · have hend : i + n = 0 := h
    show n ≤ 0
    omega

/-- An entry with the property makes the open run longer. -/
theorem Knows.extend {s : Measured M × Measured M} (h : Knows p w xs s) (ha : p a = true) :
    Knows p w (xs ++ [a]) (LongestRun.step p w s a) := by
  obtain ⟨⟨i, hbest, hweight⟩, hfits, hopened, hlongest, hopenWeight⟩ := h
  have hstart : xs.length + 1 - (s.2.length + 1) = xs.length - s.2.length := by omega
  have hrun : IsRun p (xs ++ [a]) (xs.length + 1 - (s.2.length + 1)) (s.2.length + 1) := by
    rw [hstart]
    exact (isRun_concat_iff (by omega)).mpr ⟨hopened, ha⟩
  have hnew : ∀ i' n', i' + n' = xs.length + 1 → IsRun p (xs ++ [a]) i' n' →
      n' ≤ s.2.length + 1 := by
    intro i' n' hend hrun'
    cases n' with
    | zero => exact Nat.zero_le _
    | succ n' =>
      have hle := hlongest i' n' (by omega) ((isRun_concat_iff (by omega)).mp hrun').1
      omega
  have hcur : s.2.weight + w a =
      weight w (xs ++ [a]) (xs.length + 1 - (s.2.length + 1)) (s.2.length + 1) := by
    rw [hstart, weight_concat_succ (by omega), hopenWeight]
  unfold LongestRun.step
  rw [if_pos ha]
  refine ⟨?_, ?_, ?_, ?_, ?_⟩
  · dsimp only
    split
    · rename_i hlt
      exact ⟨_, hbest.replace hlt hrun hnew, hcur⟩
    · rename_i hge
      refine ⟨i, hbest.keep fun i' n' hend hrun' => ?_, ?_⟩
      · have hle := hnew i' n' hend hrun'
        omega
      · rw [weight_concat hbest.run.1]
        exact hweight
  · rw [length_concat]
    exact Nat.succ_le_succ hfits
  · rw [length_concat]
    exact hrun
  · rw [length_concat]
    exact hnew
  · rw [length_concat]
    exact hcur

/-- An entry without it closes the open run. -/
theorem Knows.close {s : Measured M × Measured M} (h : Knows p w xs s) (ha : ¬p a = true) :
    Knows p w (xs ++ [a]) (LongestRun.step p w s a) := by
  obtain ⟨⟨i, hbest, hweight⟩, -, -, -, -⟩ := h
  have hnew : ∀ i' n', i' + n' = xs.length + 1 → IsRun p (xs ++ [a]) i' n' → n' ≤ 0 := by
    intro i' n' hend hrun'
    cases n' with
    | zero => exact Nat.le_refl 0
    | succ n' => exact absurd ((isRun_concat_iff (by omega)).mp hrun').2 ha
  unfold LongestRun.step
  rw [if_neg ha]
  refine ⟨⟨i, hbest.keep fun i' n' hend hrun' => ?_, ?_⟩, Nat.zero_le _, ?_, ?_, ?_⟩
  · have hle := hnew i' n' hend hrun'
    omega
  · rw [weight_concat hbest.run.1]
    exact hweight
  · exact isRun_zero (Nat.sub_le _ _)
  · rw [length_concat]
    exact hnew
  · unfold weight
    rw [List.take_zero]
    rfl

theorem knows_foldl (p : α → Bool) (w : α → M) (xs : List α) :
    Knows p w xs (xs.foldl (step p w) (⟨0, 0⟩, ⟨0, 0⟩)) := by
  induction xs using List.reverseRecOn with
  | nil => exact knows_nil
  | append_singleton xs a ih =>
    rw [List.foldl_append, List.foldl_cons, List.foldl_nil]
    by_cases ha : p a = true
    · exact ih.extend ha
    · exact ih.close ha

/-- The pass finds the first of the longest runs, and its weight. -/
theorem foldl_isFirstLongest (p : α → Bool) (w : α → M) (xs : List α) :
    ∃ i, IsFirstLongest p xs i (xs.foldl (step p w) (⟨0, 0⟩, ⟨0, 0⟩)).1.length ∧
      (xs.foldl (step p w) (⟨0, 0⟩, ⟨0, 0⟩)).1.weight =
        weight w xs i (xs.foldl (step p w) (⟨0, 0⟩, ⟨0, 0⟩)).1.length :=
  (knows_foldl p w xs).best

end Weight

end Lib.LongestRun

/-! ## The longest stretch of a timed walk -/

namespace Lib.LongestStretch

variable {T : Type*} [AddCommGroup T]

/-- Every step from `i` to `j` is kept; the step `k` leads from `k` to `k + 1`. -/
def Kept (step : ℕ → Prop) (i j : ℕ) : Prop := i ≤ j ∧ ∀ k, i ≤ k → k < j → step k

/-- How long the kept stretches up to `n` take. -/
def spans (step : ℕ → Prop) (time : ℕ → T) (n : ℕ) : Set T :=
  {d | ∃ i j, j ≤ n ∧ Kept step i j ∧ d = time j - time i}

variable {step : ℕ → Prop} {time : ℕ → T} {n i : ℕ}

theorem kept_refl (step : ℕ → Prop) (n : ℕ) : Kept step n n :=
  ⟨le_rfl, fun _ hle hlt => absurd hlt (not_lt.mpr hle)⟩

theorem kept_succ_iff (hle : i ≤ n) : Kept step i (n + 1) ↔ Kept step i n ∧ step n := by
  constructor
  · intro h
    exact ⟨⟨hle, fun k hi hk => h.2 k hi (by omega)⟩, h.2 n hle (by omega)⟩
  · intro h
    refine ⟨by omega, fun k hi hk => ?_⟩
    by_cases hkn : k < n
    · exact h.1.2 k hi hkn
    · obtain rfl : k = n := by omega
      exact h.2

/-- A stretch that ends before the last sample was there before. -/
theorem spans_succ_cases {d : T} (h : d ∈ spans step time (n + 1)) :
    d ∈ spans step time n ∨ ∃ i, Kept step i (n + 1) ∧ d = time (n + 1) - time i := by
  obtain ⟨i, j, hj, hkept, rfl⟩ := h
  by_cases hjn : j ≤ n
  · exact Or.inl ⟨i, j, hjn, hkept, rfl⟩
  · obtain rfl : j = n + 1 := by omega
    exact Or.inr ⟨i, hkept, rfl⟩

theorem spans_mono {d : T} (h : d ∈ spans step time n) : d ∈ spans step time (n + 1) := by
  obtain ⟨i, j, hj, hkept, rfl⟩ := h
  exact ⟨i, j, by omega, hkept, rfl⟩

variable [LinearOrder T] {start : ℕ} {best : T}

/-- After `n` steps: where the open stretch starts, and the longest time of any. -/
structure Scanned (step : ℕ → Prop) (time : ℕ → T) (n start : ℕ) (best : T) : Prop where
  kept : Kept step start n
  maximal : ∀ i, Kept step i n → start ≤ i
  best : IsGreatest (spans step time n) best

theorem scanned_zero (step : ℕ → Prop) (time : ℕ → T) : Scanned step time 0 0 0 where
  kept := kept_refl step 0
  maximal := fun i _ => Nat.zero_le i
  best := by
    refine ⟨⟨0, 0, le_rfl, kept_refl step 0, (sub_self _).symm⟩, fun d hd => ?_⟩
    obtain ⟨i, j, hj, hkept, rfl⟩ := hd
    obtain rfl : i = j := by have := hkept.1; omega
    exact (sub_self _).le

/-- No time is shorter than that of a single sample. -/
theorem Scanned.nonneg (h : Scanned step time n start best) : 0 ≤ best :=
  h.best.2 ⟨n, n, le_rfl, kept_refl step n, (sub_self _).symm⟩

/-- A step that is not kept: the next stretch starts behind it. -/
theorem Scanned.cut (h : Scanned step time n start best) (hstep : ¬step n) :
    Scanned step time (n + 1) (n + 1) best where
  kept := kept_refl step (n + 1)
  maximal := by
    intro i hkept
    by_contra hlt
    exact hstep (hkept.2 n (by omega) (by omega))
  best := by
    refine ⟨spans_mono h.best.1, fun d hd => ?_⟩
    obtain hd | ⟨i, hkept, rfl⟩ := spans_succ_cases hd
    · exact h.best.2 hd
    · obtain rfl : i = n + 1 := by
        have hle := hkept.1
        by_contra hne
        exact hstep (hkept.2 n (by omega) (by omega))
      rw [sub_self]
      exact h.nonneg

/-- A kept step extends the open stretch, which is the longest that ends there. -/
theorem Scanned.extend [IsOrderedAddMonoid T] (h : Scanned step time n start best) (hstep : step n)
    (hmono : ∀ i, start ≤ i → i ≤ n + 1 → time start ≤ time i) :
    Scanned step time (n + 1) start (max best (time (n + 1) - time start)) where
  kept := (kept_succ_iff h.kept.1).mpr ⟨h.kept, hstep⟩
  maximal := by
    intro i hkept
    by_cases hi : i ≤ n
    · exact h.maximal i ((kept_succ_iff hi).mp hkept).1
    · exact le_trans h.kept.1 (by omega)
  best := by
    constructor
    · obtain hmax | hmax := max_choice best (time (n + 1) - time start)
      · rw [hmax]
        exact spans_mono h.best.1
      · rw [hmax]
        exact ⟨start, n + 1, le_rfl, (kept_succ_iff h.kept.1).mpr ⟨h.kept, hstep⟩, rfl⟩
    · intro d hd
      obtain hd | ⟨i, hkept, rfl⟩ := spans_succ_cases hd
      · exact (h.best.2 hd).trans (le_max_left _ _)
      · have hstart : start ≤ i := by
          by_cases hi : i ≤ n
          · exact h.maximal i ((kept_succ_iff hi).mp hkept).1
          · exact le_trans h.kept.1 (by omega)
        exact (sub_le_sub_left (hmono i hstart hkept.1) _).trans (le_max_right _ _)

end Lib.LongestStretch
