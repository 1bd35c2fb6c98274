import Mathlib.Data.List.Perm.Basic
import Mathlib.Algebra.Order.Field.Rat
import Mathlib.Data.List.Nodup
import Mathlib.Data.List.Perm.Subperm
import Mathlib.Data.Nat.ModEq
import Mathlib.Tactic.Linarith

/-
  Random draws as Python's `random` makes them: a choice, a shuffle, an order drawn by weight
  without putting back. The source of randomness is any state with any outcomes, and the numbers
  are any type with the operations floats have, no law assumed of them.

  A sampler draws samples and numbers from a range in exact arithmetic: a sample takes distinct
  places of its population.

  Nothing here is about a program in particular.
-/

namespace Lib.Draw

section

/-- A source of random numbers: `random()` and `_randbelow(n)`. -/
structure Rng (ρ F : Type*) where
  random : ρ → F × ρ
  below : Nat → ρ → Nat × ρ
  below_lt : ∀ n r, 0 < n → (below n r).1 < n

variable {ρ F β : Type*}

/-- `choice(seq)`; nothing comes of an empty sequence. -/
def choice (R : Rng ρ F) (seq : List β) (r : ρ) : Option β × ρ :=
  let (i, r) := R.below seq.length r
  (seq[i]?, r)

theorem choice_mem {R : Rng ρ F} {seq : List β} {r r' : ρ} {b : β}
    (h : choice R seq r = (some b, r')) : b ∈ seq := by
  unfold choice at h
  exact List.mem_of_getElem? (Prod.mk.inj h).1

/-! ## Shuffling -/

/-- `x[i], x[j] = x[j], x[i]`. -/
def swap (xs : List β) (i j : Nat) : List β :=
  match xs[i]?, xs[j]? with
  | some a, some b => (xs.set i b).set j a
  | _, _ => xs

theorem mem_of_mem_swap {xs : List β} {i j : Nat} {b : β} (h : b ∈ swap xs i j) : b ∈ xs := by
  unfold swap at h
  split at h
  · next x y hx hy =>
    rcases List.mem_or_eq_of_mem_set h with h | rfl
    · rcases List.mem_or_eq_of_mem_set h with h | rfl
      · exact h
      · exact List.mem_of_getElem? hy
    · exact List.mem_of_getElem? hx
  · exact h

/-- `for i in reversed(range(1, n)): j = randbelow(i + 1); x[i], x[j] = x[j], x[i]`. -/
def shuffleFrom (R : Rng ρ F) : Nat → List β → ρ → List β × ρ
  | 0, xs, r => (xs, r)
  | i + 1, xs, r =>
    let (j, r) := R.below (i + 2) r
    shuffleFrom R i (swap xs (i + 1) j) r

/-- `shuffle(x)`. -/
def shuffle (R : Rng ρ F) (xs : List β) (r : ρ) : List β × ρ := shuffleFrom R (xs.length - 1) xs r

theorem mem_of_mem_shuffle {R : Rng ρ F} {xs : List β} {r : ρ} {b : β}
    (h : b ∈ (shuffle R xs r).1) : b ∈ xs := by
  have hfrom : ∀ (n : Nat) (xs : List β) (r : ρ), b ∈ (shuffleFrom R n xs r).1 → b ∈ xs := by
    intro n
    induction n with
    | zero =>
      intro xs r h
      exact h
    | succ n ih =>
      intro xs r h
      exact mem_of_mem_swap (ih _ _ h)
  exact hfrom _ xs r h

/-! ## Drawing by weight -/

section Weighted

variable [Zero F] [Add F] [Mul F] [LE F] [DecidableLE F]

/-- `sum(w for _, w in items)`. -/
def total (items : List (β × F)) : F := items.foldl (fun acc item => acc + item.2) 0

/-- `chosen`: the first place where the running sum reaches `pick`, the last place if none does. -/
def chosen (pick : F) : F → List (β × F) → Nat
  | _, [] => 0
  | _, [_] => 0
  | acc, item :: items => if pick ≤ acc + item.2 then 0 else chosen pick (acc + item.2) items + 1

/-- One turn of the `while items` loop: what is drawn, what is left. -/
def drawOne (R : Rng ρ F) (items : List (β × F)) (r : ρ) : Option β × List (β × F) × ρ :=
  let (x, r) := R.random r
  let i := chosen (x * total items) 0 items
  (items[i]?.map Prod.fst, items.eraseIdx i, r)

/-- The `while items` loop; `stop items` breaks it off and keeps what is left in its order. -/
def drawAll (R : Rng ρ F) (stop : List (β × F) → Bool) : Nat → List (β × F) → ρ → List β × ρ
  | 0, _, r => ([], r)
  | n + 1, items, r =>
    if stop items then (items.map Prod.fst, r)
    else
      match drawOne R items r with
      | (none, _, r) => ([], r)
      | (some b, items, r) =>
        let (rest, r) := drawAll R stop n items r
        (b :: rest, r)

omit [Zero F] [Mul F] in
theorem chosen_lt (pick acc : F) {items : List (β × F)} (h : items ≠ []) :
    chosen pick acc items < items.length := by
  induction items generalizing acc with
  | nil => exact absurd rfl h
  | cons item rest ih =>
    cases rest with
    | nil => exact Nat.zero_lt_one
    | cons item' rest =>
      unfold chosen
      split
      · exact Nat.zero_lt_succ _
      · have hlt := ih (acc + item.2) (List.cons_ne_nil item' rest)
        rw [List.length_cons]
        omega

/-- The draw takes one item out. -/
theorem drawOne_of_ne_nil (R : Rng ρ F) {items : List (β × F)} (h : items ≠ []) (r : ρ) :
    ∃ item rest r', drawOne R items r = (some item.1, rest, r') ∧ (item :: rest).Perm items := by
  obtain ⟨x, r', hx⟩ : ∃ x r', R.random r = (x, r') := ⟨_, _, rfl⟩
  have hlt := chosen_lt (x * total items) 0 h
  refine ⟨items[chosen (x * total items) 0 items], items.eraseIdx _, r', ?_,
    List.getElem_cons_eraseIdx_perm hlt⟩
  unfold drawOne
  rw [hx]
  dsimp only
  rw [List.getElem?_eq_getElem hlt]
  rfl

/-- Every item gets a turn, and gets it once. -/
theorem drawAll_perm (R : Rng ρ F) (stop : List (β × F) → Bool) {n : Nat} {items : List (β × F)}
    (hn : items.length ≤ n) (r : ρ) :
    (drawAll R stop n items r).1.Perm (items.map Prod.fst) := by
  induction n generalizing items r with
  | zero =>
    rw [List.eq_nil_of_length_eq_zero (Nat.le_zero.mp hn)]
    exact List.Perm.refl _
  | succ n ih =>
    unfold drawAll
    split
    · exact List.Perm.refl _
    · by_cases h : items = []
      · subst h
        exact List.Perm.refl _
      · obtain ⟨item, rest, r', heq, hperm⟩ := drawOne_of_ne_nil R h r
        have hlen := hperm.length_eq
        rw [List.length_cons] at hlen
        rw [heq]
        exact ((ih (by omega) r').cons item.1).trans (hperm.map Prod.fst)

end Weighted

end

/-! ## Samples -/

/-- A source of random numbers with what its draws promise: `random()` is below one, and
    `sample` takes as many places as it is asked for, none twice. -/
structure Sampler (ρ : Type*) extends Rng ρ ℚ where
  seeded : Int → ρ
  random_nonneg : ∀ r, 0 ≤ (random r).1
  random_lt_one : ∀ r, (random r).1 < 1
  places : Nat → Nat → ρ → List Nat × ρ
  places_nodup : ∀ n k r, (places n k r).1.Nodup
  places_lt : ∀ n k r, ∀ i ∈ (places n k r).1, i < n
  places_length : ∀ n k r, k ≤ n → (places n k r).1.length = k

namespace Sampler

variable {ρ β : Type*}

/-- `uniform(a, b)`. -/
def uniform (R : Sampler ρ) (a b : ℚ) (r : ρ) : ℚ × ρ :=
  let (x, r) := R.random r
  (a + (b - a) * x, r)

/-- `sample(population, k)`. -/
def sample (R : Sampler ρ) (population : List β) (k : Nat) (r : ρ) : List β × ρ :=
  let (places, r) := R.places population.length k r
  (places.filterMap fun i => population[i]?, r)

theorem uniform_mem (R : Sampler ρ) {a b : ℚ} (h : a ≤ b) (r : ρ) :
    a ≤ (R.uniform a b r).1 ∧ (R.uniform a b r).1 ≤ b := by
  have hnonneg := R.random_nonneg r
  have hlt := R.random_lt_one r
  show a ≤ a + (b - a) * (R.random r).1 ∧ a + (b - a) * (R.random r).1 ≤ b
  have hwidth : 0 ≤ b - a := sub_nonneg.mpr h
  have hlow : 0 ≤ (b - a) * (R.random r).1 := mul_nonneg hwidth hnonneg
  have hhigh : (b - a) * (R.random r).1 ≤ b - a := mul_le_of_le_one_right hwidth hlt.le
  constructor
  · exact le_add_of_nonneg_right hlow
  · linarith

theorem mem_sample {R : Sampler ρ} {population : List β} {k : Nat} {r : ρ} {b : β} :
    b ∈ (R.sample population k r).1 ↔
      ∃ i ∈ (R.places population.length k r).1, population[i]? = some b :=
  List.mem_filterMap

theorem mem_of_mem_sample {R : Sampler ρ} {population : List β} {k : Nat} {r : ρ} {b : β}
    (h : b ∈ (R.sample population k r).1) : b ∈ population := by
  obtain ⟨i, -, hi⟩ := mem_sample.mp h
  exact List.mem_of_getElem? hi

/-- Distinct places of a population without repetitions hold distinct entries. -/
theorem sample_nodup (R : Sampler ρ) {population : List β} (h : population.Nodup) (k : Nat)
    (r : ρ) : (R.sample population k r).1.Nodup := by
  refine List.Nodup.filterMap ?_ (R.places_nodup population.length k r)
  intro i j b hi hj
  obtain ⟨hlt, -⟩ := List.getElem?_eq_some_iff.mp hi
  exact (List.getElem?_inj hlt h).mp (hi.trans hj.symm)

/-- A sample of the size of the population leaves nothing out. -/
theorem mem_sample_all {R : Sampler ρ} {population : List β} {r : ρ} {b : β}
    (hb : b ∈ population) : b ∈ (R.sample population population.length r).1 := by
  obtain ⟨i, hi⟩ := List.mem_iff_getElem?.mp hb
  obtain ⟨hlt, -⟩ := List.getElem?_eq_some_iff.mp hi
  have hnodup := R.places_nodup population.length population.length r
  have hlength := R.places_length population.length population.length r (le_refl _)
  have hsub : (R.places population.length population.length r).1 ⊆ List.range population.length := by
    intro j hj
    exact List.mem_range.mpr (R.places_lt _ _ _ j hj)
  have hperm := (List.subperm_of_subset hnodup hsub).perm_of_length_le
    (by rw [List.length_range, hlength])
  exact mem_sample.mpr ⟨i, hperm.mem_iff.mpr (List.mem_range.mpr hlt), hi⟩

/-! ## A source that starts anywhere -/

/-- `k` places of `n` in a circle, from `start` on. -/
def circle (n k start : Nat) : List Nat :=
  if k ≤ n then (List.range k).map fun j => (start + j) % n else []

theorem circle_nodup (n k start : Nat) : (circle n k start).Nodup := by
  unfold circle
  split
  · rename_i hk
    refine (List.nodup_map_iff_inj_on List.nodup_range).mpr ?_
    intro i hi j hj h
    rw [List.mem_range] at hi hj
    have hmod : i % n = j % n := Nat.ModEq.add_left_cancel' start h
    rwa [Nat.mod_eq_of_lt (by omega), Nat.mod_eq_of_lt (by omega)] at hmod
  · exact List.nodup_nil

theorem circle_lt {n k start i : Nat} (h : i ∈ circle n k start) : i < n := by
  unfold circle at h
  split at h
  · rename_i hk
    obtain ⟨j, hj, rfl⟩ := List.mem_map.mp h
    have hlt := List.mem_range.mp hj
    exact Nat.mod_lt _ (by omega)
  · exact absurd h List.not_mem_nil

theorem length_circle {n k start : Nat} (h : k ≤ n) : (circle n k start).length = k := by
  rw [circle, if_pos h, List.length_map, List.length_range]

theorem start_mem_circle {n k start : Nat} (hk : 0 < k) (hkn : k ≤ n) (hstart : start < n) :
    start ∈ circle n k start := by
  rw [circle, if_pos hkn, List.mem_map]
  exact ⟨0, List.mem_range.mpr hk, Nat.mod_eq_of_lt hstart⟩

/-- A source whose samples start at the place that is its seed and go on in a circle. -/
def rotating : Sampler Nat where
  random r := (0, r)
  below _ r := (0, r)
  below_lt _ _ h := h
  seeded seed := seed.toNat
  random_nonneg _ := le_refl 0
  random_lt_one _ := zero_lt_one
  places n k r := (circle n k r, r)
  places_nodup := circle_nodup
  places_lt _ _ _ _ h := circle_lt h
  places_length _ _ _ h := length_circle h

/-- Every entry is in some sample that is not empty. -/
theorem exists_mem_sample_rotating {population : List β} {k : Nat} {b : β} (hk : 0 < k)
    (hlength : k ≤ population.length) (hb : b ∈ population) :
    ∃ seed, b ∈ (rotating.sample population k (rotating.seeded seed)).1 := by
  obtain ⟨i, hi⟩ := List.mem_iff_getElem?.mp hb
  obtain ⟨hlt, -⟩ := List.getElem?_eq_some_iff.mp hi
  exact ⟨i, mem_sample.mpr ⟨i, start_mem_circle hk hlength hlt, hi⟩⟩

end Sampler

end Lib.Draw
