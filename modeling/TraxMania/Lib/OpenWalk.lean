import Mathlib.Data.Finset.Basic

/-
  Walks through unmarked cells. `N` gives the successors of a cell, cells with `T` are walls,
  cells with `G` are where a walk may end. `Opens V n a`: some walk of at most `n` steps from `a`
  ends in a `G` cell and meets no cell of `V` (its first cell included) and no wall after its
  first cell.

  `opens_detour` is the rule the search proofs use: marks may be taken away as long as nothing
  opens from the cells that lost their mark.
-/

namespace Lib.OpenWalk

variable {α : Type*} (N : α → List α) (T G : α → Prop)

def Opens (V : Finset α) : Nat → α → Prop
  | 0, a => a ∉ V ∧ G a
  | n + 1, a => a ∉ V ∧ (G a ∨ ∃ y ∈ N a, ¬ T y ∧ Opens V n y)

variable {N T G}

theorem Opens.not_mem {V : Finset α} {n : Nat} {a : α} (h : Opens N T G V n a) : a ∉ V := by
  cases n with
  | zero => exact h.1
  | succ n => exact h.1

theorem opens_of_goal {V : Finset α} {a : α} (n : Nat) (hV : a ∉ V) (hG : G a) :
    Opens N T G V n a := by
  cases n with
  | zero => exact ⟨hV, hG⟩
  | succ n => exact ⟨hV, Or.inl hG⟩

theorem opens_of_step {V : Finset α} {n : Nat} {a y : α} (hV : a ∉ V) (hy : y ∈ N a)
    (hT : ¬ T y) (h : Opens N T G V n y) : Opens N T G V (n + 1) a :=
  ⟨hV, Or.inr ⟨y, hy, hT, h⟩⟩

theorem opens_succ {V : Finset α} {n : Nat} {a : α} (h : Opens N T G V n a) :
    Opens N T G V (n + 1) a := by
  induction n generalizing a with
  | zero => exact ⟨h.1, Or.inl h.2⟩
  | succ n ih =>
    obtain ⟨hV, hG | ⟨y, hy, hT, hn⟩⟩ := h
    · exact ⟨hV, Or.inl hG⟩
    · exact opens_of_step hV hy hT (ih hn)

theorem opens_mono {V : Finset α} {n m : Nat} {a : α} (hnm : n ≤ m)
    (h : Opens N T G V n a) : Opens N T G V m a := by
  induction hnm with
  | refl => exact h
  | step _ ih => exact opens_succ ih

/-- Fewer marks keep a walk open. -/
theorem opens_antitone {V W : Finset α} {n : Nat} {a : α} (hVW : ∀ x ∈ W, x ∈ V)
    (h : Opens N T G V n a) : Opens N T G W n a := by
  induction n generalizing a with
  | zero => exact ⟨fun ha => h.1 (hVW a ha), h.2⟩
  | succ n ih =>
    obtain ⟨hV, hG | ⟨y, hy, hT, hn⟩⟩ := h
    · exact ⟨fun ha => hV (hVW a ha), Or.inl hG⟩
    · exact opens_of_step (fun ha => hV (hVW a ha)) hy hT (ih hn)

/-- A walk open under `V` is open under `W`, or meets a cell of `W` that `V` does not mark. -/
theorem opens_detour {V W : Finset α} {n : Nat} {a : α} (h : Opens N T G V n a) :
    Opens N T G W n a ∨ ∃ d ∈ W, d ∉ V ∧ Opens N T G V n d := by
  induction n generalizing a with
  | zero =>
    by_cases haW : a ∈ W
    · exact Or.inr ⟨a, haW, h.1, h⟩
    · exact Or.inl ⟨haW, h.2⟩
  | succ n ih =>
    by_cases haW : a ∈ W
    · exact Or.inr ⟨a, haW, h.1, h⟩
    · obtain ⟨-, hG | ⟨y, hy, hT, hn⟩⟩ := h
      · exact Or.inl ⟨haW, Or.inl hG⟩
      · rcases ih hn with hW | ⟨d, hd, hdV, hdn⟩
        · exact Or.inl (opens_of_step haW hy hT hW)
        · exact Or.inr ⟨d, hd, hdV, opens_succ hdn⟩

/-- Removing marks opens nothing when nothing opens from the cells that lost theirs. -/
theorem not_opens_of_detour {V W : Finset α} {n : Nat} {a : α}
    (ha : ¬ Opens N T G W n a)
    (hd : ∀ d ∈ W, d ∉ V → ¬ Opens N T G V n d) : ¬ Opens N T G V n a := by
  intro h
  rcases opens_detour (W := W) h with hW | ⟨d, hdW, hdV, hdn⟩
  · exact ha hW
  · exact hd d hdW hdV hdn

end Lib.OpenWalk
