import Mathlib.Data.List.Basic

/-
  Depth-first search with backtracking over a shared, mutable state. At a node `expand` lists the
  moves to try, `attempt` says what becomes of a move when its turn comes, and how it
  is taken back after its subtree has failed. The state has a part `κ` that this restores and a
  part `α` (counters, random draws) that goes on changing.

  `dfs_found` is the rule the search proofs use: what a search returns is reached by a chain of
  moves, none of them taken back (`Leads`), whatever subtrees failed before.

  Nothing here is about a program in particular.
-/

namespace Lib.Backtrack

/-- What becomes of a move: it is passed over, it ends the search, or the search goes on from the
node behind it and takes the move `back` when that fails. -/
inductive Attempt (κ ν : Type*) where
  | skip
  | close (k : κ)
  | descend (k : κ) (n : ν) (back : κ → κ)

structure Search (κ α ν μ ε : Type*) where
  expand : ν → κ → α → Except ε (List μ × α)
  attempt : ν → κ → μ → Attempt κ ν
  /-- What the volatile part remembers of a move. -/
  note : μ → α → α
  unnote : α → α

/-- How a search from a node ends: with `return True`, with `return False`, with an exception. -/
inductive Result (κ α ε : Type*) where
  | found (k : κ) (a : α)
  | dead (k : κ) (a : α)
  | raised (e : ε)

namespace Search

variable {κ α ν μ ε : Type*} (S : Search κ α ν μ ε)

/-- The loop over the moves of a node; `go` searches the subtree of a move. -/
def tryEach (go : ν → κ → α → Result κ α ε) (n : ν) : List μ → κ → α → Result κ α ε
  | [], k, a => .dead k a
  | m :: ms, k, a =>
    match S.attempt n k m with
    | .skip => tryEach go n ms k a
    | .close k' => .found k' a
    | .descend k' n' back =>
      match go n' k' (S.note m a) with
      | .found k'' a' => .found k'' a'
      | .raised e => .raised e
      | .dead k'' a' => tryEach go n ms (back k'') (S.unnote a')

/-- The search from a node, at most `fuel` nodes deep; `out` is raised below that. -/
def dfs (out : ε) : Nat → ν → κ → α → Result κ α ε
  | 0, _, _, _ => .raised out
  | fuel + 1, n, k, a =>
    match S.expand n k a with
    | .error e => .raised e
    | .ok (ms, a') => S.tryEach (dfs out fuel) n ms k a'

/-- The move `m` is tried at the node `n` in the state `k`. -/
def Offered (n : ν) (k : κ) (m : μ) : Prop := ∃ a ms a', S.expand n k a = .ok (ms, a') ∧ m ∈ ms

/-- Taking a move back restores the state it was made in. -/
def Undoes : Prop := ∀ {n k m k' n' back}, S.Offered n k m →
  S.attempt n k m = .descend k' n' back → back k' = k

/-- A chain of moves leads from the node `n` in the state `k` to the end `k'` of the search. -/
inductive Leads : ν → κ → κ → Prop
  | close {n : ν} {k k' : κ} {m : μ} : S.Offered n k m → S.attempt n k m = .close k' → Leads n k k'
  | descend {n n₁ : ν} {k k₁ k' : κ} {m : μ} {back : κ → κ} : S.Offered n k m →
      S.attempt n k m = .descend k₁ n₁ back → Leads n₁ k₁ k' → Leads n k k'

variable {S} {out : ε}

/-! ## What a search leaves behind -/

/-- The loop over the moves, given what the search of a subtree leaves behind. -/
theorem tryEach_spec (hS : S.Undoes) {go : ν → κ → α → Result κ α ε}
    (hdead : ∀ {n k a k' a'}, go n k a = .dead k' a' → k' = k)
    (hfound : ∀ {n k a k' a'}, go n k a = .found k' a' → S.Leads n k k')
    {n : ν} {k : κ} (ms : List μ) (hms : ∀ m ∈ ms, S.Offered n k m) (a : α) :
    (∀ {k' a'}, S.tryEach go n ms k a = .dead k' a' → k' = k) ∧
      ∀ {k' a'}, S.tryEach go n ms k a = .found k' a' → S.Leads n k k' := by
  induction ms generalizing a with
  | nil =>
    constructor
    · intro k' a' h
      exact (Result.dead.inj h).1.symm
    · intro k' a' h
      cases h
  | cons m ms ih =>
    have hm : S.Offered n k m := hms m (by simp)
    have hrest := ih fun m' hm' => hms m' (by simp [hm'])
    unfold tryEach
    cases hat : S.attempt n k m with
    | skip => exact hrest a
    | close k₁ =>
      dsimp only
      constructor
      · intro k' a' h
        cases h
      · intro k' a' h
        obtain ⟨rfl, -⟩ := Result.found.inj h
        exact Leads.close hm hat
    | descend k₁ n₁ back =>
      dsimp only
      cases hgo : go n₁ k₁ (S.note m a) with
      | found k₂ a₂ =>
        dsimp only
        constructor
        · intro k' a' h
          cases h
        · intro k' a' h
          obtain ⟨rfl, -⟩ := Result.found.inj h
          exact Leads.descend hm hat (hfound hgo)
      | raised e =>
        dsimp only
        constructor
        · intro k' a' h
          cases h
        · intro k' a' h
          cases h
      | dead k₂ a₂ =>
        -- the failed subtree left `k₁`, so the move is taken back from there
        have hk : back k₂ = k := by
          rw [hdead hgo]
          exact hS hm hat
        dsimp only
        rw [hk]
        exact hrest _

theorem dfs_spec (hS : S.Undoes) (fuel : Nat) (n : ν) (k : κ) (a : α) :
    (∀ {k' a'}, S.dfs out fuel n k a = .dead k' a' → k' = k) ∧
      ∀ {k' a'}, S.dfs out fuel n k a = .found k' a' → S.Leads n k k' := by
  induction fuel generalizing n k a with
  | zero =>
    constructor
    · intro k' a' h
      cases h
    · intro k' a' h
      cases h
  | succ fuel ih =>
    unfold dfs
    cases he : S.expand n k a with
    | error e =>
      dsimp only
      constructor
      · intro k' a' h
        cases h
      · intro k' a' h
        cases h
    | ok r =>
      obtain ⟨ms, a₁⟩ := r
      exact tryEach_spec hS (fun {n k a} => (ih n k a).1) (fun {n k a} => (ih n k a).2) ms
        (fun m hm => ⟨a, ms, a₁, he, hm⟩) a₁

/-- A search that succeeds was led there by moves of which none was taken back. -/
theorem dfs_found (hS : S.Undoes) {fuel : Nat} {n : ν} {k k' : κ} {a a' : α}
    (h : S.dfs out fuel n k a = .found k' a') : S.Leads n k k' := (dfs_spec hS fuel n k a).2 h

/-! ## Depth

  When every node uses up some of a budget, a search that may go deeper than the budget allows is
  not held back by its fuel. -/

section Depth

variable {rank : α → Nat}

/-- Expanding a node uses the budget, remembering a move does not change it. -/
structure Spends (S : Search κ α ν μ ε) (rank : α → Nat) : Prop where
  expand : ∀ {n k a ms a'}, S.expand n k a = .ok (ms, a') → rank a' < rank a
  note : ∀ m a, rank (S.note m a) = rank a
  unnote : ∀ a, rank (S.unnote a) = rank a

theorem tryEach_rank (hR : Spends S rank) {go : ν → κ → α → Result κ α ε}
    (hgo : ∀ {n k a k' a'}, go n k a = .dead k' a' → rank a' ≤ rank a)
    {n : ν} (ms : List μ) (k : κ) (a : α) {k' : κ} {a' : α}
    (h : S.tryEach go n ms k a = .dead k' a') : rank a' ≤ rank a := by
  induction ms generalizing k a with
  | nil => exact Nat.le_of_eq (congrArg rank (Result.dead.inj h).2.symm)
  | cons m ms ih =>
    unfold tryEach at h
    cases hat : S.attempt n k m with
    | skip =>
      rw [hat] at h
      exact ih k a h
    | close k₁ =>
      rw [hat] at h
      cases h
    | descend k₁ n₁ back =>
      rw [hat] at h
      dsimp only at h
      cases hr : go n₁ k₁ (S.note m a) with
      | found k₂ a₂ =>
        rw [hr] at h
        cases h
      | raised e =>
        rw [hr] at h
        cases h
      | dead k₂ a₂ =>
        rw [hr] at h
        have h1 := ih _ _ h
        have h2 := hgo hr
        rw [hR.note] at h2
        rw [hR.unnote] at h1
        omega

theorem dfs_rank (hR : Spends S rank) (fuel : Nat) {n : ν} {k k' : κ} {a a' : α}
    (h : S.dfs out fuel n k a = .dead k' a') : rank a' ≤ rank a := by
  induction fuel generalizing n k a k' a' with
  | zero => cases h
  | succ fuel ih =>
    unfold dfs at h
    cases he : S.expand n k a with
    | error e =>
      rw [he] at h
      cases h
    | ok r =>
      obtain ⟨ms, a₁⟩ := r
      rw [he] at h
      have h1 := tryEach_rank hR (fun hgo => ih hgo) ms k a₁ h
      have h2 := hR.expand he
      omega

/-- The loop over the moves asks only for subtrees within the budget. -/
theorem tryEach_congr (hR : Spends S rank) {go go' : ν → κ → α → Result κ α ε} {b : Nat}
    (hgo : ∀ {n k a k' a'}, go n k a = .dead k' a' → rank a' ≤ rank a)
    (heq : ∀ n k a, rank a < b → go n k a = go' n k a)
    {n : ν} (ms : List μ) (k : κ) (a : α) (ha : rank a < b) :
    S.tryEach go n ms k a = S.tryEach go' n ms k a := by
  induction ms generalizing k a with
  | nil => rfl
  | cons m ms ih =>
    unfold tryEach
    cases S.attempt n k m with
    | skip => exact ih k a ha
    | close k₁ => rfl
    | descend k₁ n₁ back =>
      dsimp only
      have hnote : rank (S.note m a) < b := by
        rw [hR.note]
        exact ha
      rw [← heq n₁ k₁ _ hnote]
      cases hr : go n₁ k₁ (S.note m a) with
      | found k₂ a₂ => rfl
      | raised e => rfl
      | dead k₂ a₂ =>
        have hle := hgo hr
        refine ih _ _ ?_
        rw [hR.unnote]
        omega

/-- With more fuel than budget, more fuel changes nothing. -/
theorem dfs_fuel (hR : Spends S rank) {fuel : Nat} (n : ν) (k : κ) (a : α) (ha : rank a < fuel) :
    S.dfs out fuel n k a = S.dfs out (fuel + 1) n k a := by
  induction fuel generalizing n k a with
  | zero => omega
  | succ fuel ih =>
    rw [dfs, dfs]
    cases he : S.expand n k a with
    | error e => rfl
    | ok r =>
      obtain ⟨ms, a₁⟩ := r
      have hlt := hR.expand he
      exact tryEach_congr (b := fuel) hR (fun hgo => dfs_rank hR fuel hgo) ih ms k a₁ (by omega)

theorem dfs_fuel_add (hR : Spends S rank) {fuel : Nat} (n : ν) (k : κ) (a : α)
    (ha : rank a < fuel) (d : Nat) : S.dfs out (fuel + d) n k a = S.dfs out fuel n k a := by
  induction d with
  | zero => rfl
  | succ d ih =>
    rw [← ih, ← Nat.add_assoc]
    exact (dfs_fuel hR n k a (Nat.lt_of_lt_of_le ha (Nat.le_add_right fuel d))).symm

end Depth

end Search

end Lib.Backtrack
