import Mathlib.Data.Finset.Lattice.Lemmas
import Mathlib.Data.Set.Basic

/-
  What lies within `n` edges of a set, and the loop that finds it a layer at a time: a round follows
  the edges out of the entries found in the round before, and a round without a new entry is the
  last.

  Nothing here is about a program in particular.
-/

namespace Lib

variable {α : Type*}

/-! ## Distance -/

/-- `b` is reached from `a` along `n` edges. -/
inductive Steps (r : α → α → Prop) : Nat → α → α → Prop
  | refl (a : α) : Steps r 0 a a
  | tail {n : Nat} {a b c : α} : Steps r n a b → r b c → Steps r (n + 1) a c

/-- `b` is at distance at most `n` from an entry of `S`. -/
def WithinSteps (r : α → α → Prop) (S : Set α) (n : Nat) (b : α) : Prop :=
  ∃ a ∈ S, ∃ k ≤ n, Steps r k a b

section Distance

variable {r : α → α → Prop} {S : Set α} {n m : Nat} {b c : α}

theorem WithinSteps.mono (h : WithinSteps r S n b) (hn : n ≤ m) : WithinSteps r S m b := by
  obtain ⟨a, ha, k, hk, hs⟩ := h
  exact ⟨a, ha, k, le_trans hk hn, hs⟩

theorem WithinSteps.edge (h : WithinSteps r S n b) (hr : r b c) : WithinSteps r S (n + 1) c := by
  obtain ⟨a, ha, k, hk, hs⟩ := h
  exact ⟨a, ha, k + 1, by omega, hs.tail hr⟩

theorem withinSteps_zero : WithinSteps r S 0 b ↔ b ∈ S := by
  constructor
  · intro h
    obtain ⟨a, ha, k, hk, hs⟩ := h
    have h0 : k = 0 := by omega
    subst h0
    cases hs
    exact ha
  · intro h
    exact ⟨b, h, 0, le_refl 0, Steps.refl b⟩

/-- One edge more. -/
theorem withinSteps_succ :
    WithinSteps r S (n + 1) c ↔ WithinSteps r S n c ∨ ∃ b, WithinSteps r S n b ∧ r b c := by
  constructor
  · intro h
    obtain ⟨a, ha, k, hk, hs⟩ := h
    cases hs with
    | refl => exact Or.inl ⟨c, ha, 0, by omega, Steps.refl c⟩
    | @tail k _ b _ hs hr => exact Or.inr ⟨b, ⟨a, ha, k, by omega, hs⟩, hr⟩
  · intro h
    rcases h with h | h
    · exact h.mono (by omega)
    · obtain ⟨b, hb, hr⟩ := h
      exact hb.edge hr

/-- Where no edge leaves the ball of `n` edges, larger balls are the same. -/
theorem withinSteps_add_of_closed
    (h : ∀ b c, WithinSteps r S n b → r b c → WithinSteps r S n c) (k : Nat) :
    WithinSteps r S (n + k) c ↔ WithinSteps r S n c := by
  induction k generalizing c with
  | zero => exact Iff.rfl
  | succ k ih =>
    rw [← Nat.add_assoc, withinSteps_succ, ih]
    constructor
    · intro hc
      rcases hc with hc | hc
      · exact hc
      · obtain ⟨b, hb, hr⟩ := hc
        exact h b c (ih.mp hb) hr
    · intro hc
      exact Or.inl hc

end Distance

/-! ## The rounds -/

/-- After `k` rounds: the ball of `k` edges, every edge out of it starting in the frontier. -/
structure Layered (r : α → α → Prop) (S : Set α) (k : Nat) (found frontier : Finset α) : Prop where
  ball : ∀ c, c ∈ found ↔ WithinSteps r S k c
  sub : frontier ⊆ found
  inner : ∀ b ∈ found, b ∉ frontier → ∀ c, r b c → c ∈ found

theorem Layered.start {r : α → α → Prop} {seeds : Finset α} :
    Layered r {a | a ∈ seeds} 0 seeds seeds where
  ball _ := withinSteps_zero.symm
  sub := Finset.Subset.refl seeds
  inner _ hb hn := absurd hb hn

variable [DecidableEq α]

/-- The rounds: `next n found frontier` is what round `n` before the end finds. -/
def growRounds (next : Nat → Finset α → Finset α → Finset α) :
    Nat → Finset α → Finset α → Finset α
  | 0, found, _ => found
  | n + 1, found, frontier =>
    if next n found frontier = ∅ then found
    else growRounds next n (found ∪ next n found frontier) (next n found frontier)

/-- A round finds the new ends of the edges out of the frontier. -/
def FindsNew (r : α → α → Prop) (next : Nat → Finset α → Finset α → Finset α) : Prop :=
  ∀ n found frontier c, c ∈ next n found frontier ↔ c ∉ found ∧ ∃ b ∈ frontier, r b c

namespace Layered

variable {r : α → α → Prop} {S : Set α} {k : Nat} {found frontier : Finset α}
  {next : Nat → Finset α → Finset α → Finset α}

/-- An edge out of what was found ends there or in what the round finds. -/
theorem covered (hl : Layered r S k found frontier) (hnext : FindsNew r next) (n : Nat) {b c : α}
    (hb : b ∈ found) (hr : r b c) : c ∈ found ∪ next n found frontier := by
  rw [Finset.mem_union]
  by_cases hc : c ∈ found
  · exact Or.inl hc
  · have hf : b ∈ frontier := by
      by_contra hf
      exact hc (hl.inner b hb hf c hr)
    exact Or.inr ((hnext n found frontier c).mpr ⟨hc, b, hf, hr⟩)

/-- One round. -/
theorem step (hl : Layered r S k found frontier) (hnext : FindsNew r next) (n : Nat) :
    Layered r S (k + 1) (found ∪ next n found frontier) (next n found frontier) where
  ball c := by
    rw [withinSteps_succ]
    constructor
    · intro hc
      rcases Finset.mem_union.mp hc with hc | hc
      · exact Or.inl ((hl.ball c).mp hc)
      · obtain ⟨-, b, hb, hr⟩ := (hnext n found frontier c).mp hc
        exact Or.inr ⟨b, (hl.ball b).mp (hl.sub hb), hr⟩
    · intro hc
      rcases hc with hc | hc
      · exact Finset.mem_union_left _ ((hl.ball c).mpr hc)
      · obtain ⟨b, hb, hr⟩ := hc
        exact hl.covered hnext n ((hl.ball b).mpr hb) hr
  sub := Finset.subset_union_right
  inner b hb hn c hr := by
    have hb' : b ∈ found := by
      rcases Finset.mem_union.mp hb with hb | hb
      · exact hb
      · exact absurd hb hn
    exact hl.covered hnext n hb' hr

/-- A round that finds nothing: no edge leaves. -/
theorem closed (hl : Layered r S k found frontier) (hnext : FindsNew r next) {n : Nat}
    (he : next n found frontier = ∅) (b c : α) (hb : WithinSteps r S k b) (hr : r b c) :
    WithinSteps r S k c := by
  have h := hl.covered hnext n ((hl.ball b).mpr hb) hr
  rw [he, Finset.union_empty] at h
  exact (hl.ball c).mp h

end Layered

/-- `n` more rounds find what lies within `n` edges more. -/
theorem mem_growRounds {r : α → α → Prop} {S : Set α}
    {next : Nat → Finset α → Finset α → Finset α} (hnext : FindsNew r next) (n : Nat) {k : Nat}
    {found frontier : Finset α} (hl : Layered r S k found frontier) (c : α) :
    c ∈ growRounds next n found frontier ↔ WithinSteps r S (k + n) c := by
  induction n generalizing k found frontier with
  | zero => exact hl.ball c
  | succ n ih =>
    unfold growRounds
    by_cases he : next n found frontier = ∅
    · rw [if_pos he, hl.ball, withinSteps_add_of_closed (hl.closed hnext he)]
    · rw [if_neg he, ih (hl.step hnext n)]
      have hk : k + 1 + n = k + (n + 1) := by omega
      rw [hk]

end Lib
