import Mathlib.Data.Finset.Basic
import Mathlib.Data.Finset.Dedup

/-
  Packing items one after the other: an item is taken when it has cells and none of them is
  occupied, and from then on its cells are.

  Nothing here is about a program in particular.
-/

namespace Lib.Packing

variable {α β : Type*}

/-- The items taken so far, and every occupied cell. -/
structure Packed (α β : Type*) where
  taken : List α
  occupied : Finset β

section Definitions

variable (cells : α → List β)

/-- No cell of the one is a cell of the other. -/
def Apart (a b : α) : Prop := ∀ c ∈ cells a, c ∉ cells b

/-- Occupied is what was so from the start and what the items taken cover; these lie apart from the
    start and from each other. -/
structure Sound (start : Finset β) (s : Packed α β) : Prop where
  occupied : ∀ c, c ∈ s.occupied ↔ c ∈ start ∨ ∃ a ∈ s.taken, c ∈ cells a
  free : ∀ a ∈ s.taken, ∀ c ∈ cells a, c ∉ start
  apart : s.taken.Pairwise (Apart cells)

variable [DecidableEq β]

/-- One item. -/
def place (s : Packed α β) (a : α) : Packed α β :=
  if cells a = [] ∨ ∃ c ∈ cells a, c ∈ s.occupied then s
  else ⟨s.taken ++ [a], s.occupied ∪ (cells a).toFinset⟩

/-- All items, into cells of which some are occupied from the start. -/
def pack (start : Finset β) (items : List α) : Packed α β :=
  items.foldl (place cells) ⟨[], start⟩

end Definitions

variable {cells : α → List β} {start : Finset β}

theorem sound_start : Sound cells start ⟨[], start⟩ := by
  refine ⟨fun c => by simp, ?_, List.Pairwise.nil⟩
  intro a ha
  cases ha

variable [DecidableEq β]

/-- One item keeps the packing sound. -/
theorem Sound.place {s : Packed α β} (hs : Sound cells start s) (a : α) :
    Sound cells start (place cells s a) := by
  unfold Packing.place
  split
  · exact hs
  next hfits =>
  rw [not_or, not_exists] at hfits
  have hfree : ∀ c ∈ cells a, c ∉ s.occupied := fun c hc hocc => hfits.2 c ⟨hc, hocc⟩
  refine ⟨?_, ?_, ?_⟩
  · intro c
    rw [Finset.mem_union, hs.occupied, List.mem_toFinset]
    simp only [List.mem_append, List.mem_singleton, or_and_right, exists_or, exists_eq_left,
      or_assoc]
  · intro b hb c hc
    rcases List.mem_append.mp hb with hb | hb
    · exact hs.free b hb c hc
    · obtain rfl := List.mem_singleton.mp hb
      exact fun hstart => hfree c hc ((hs.occupied c).mpr (.inl hstart))
  · rw [List.pairwise_append]
    refine ⟨hs.apart, List.pairwise_singleton _ _, ?_⟩
    intro b hb b' hb' c hc hc'
    obtain rfl := List.mem_singleton.mp hb'
    exact hfree c hc' ((hs.occupied c).mpr (.inr ⟨b, hb, hc⟩))

theorem Sound.foldl {s : Packed α β} (hs : Sound cells start s) (items : List α) :
    Sound cells start (items.foldl (Packing.place cells) s) := by
  induction items generalizing s with
  | nil => exact hs
  | cons a items ih => exact ih (hs.place a)

theorem sound_pack (cells : α → List β) (start : Finset β) (items : List α) :
    Sound cells start (pack cells start items) :=
  sound_start.foldl items

/-- What is taken stays, and what comes on top was offered. -/
theorem taken_foldl (cells : α → List β) (items : List α) (s : Packed α β) :
    ∃ more : List α, (items.foldl (place cells) s).taken = s.taken ++ more ∧ more.Sublist items := by
  induction items generalizing s with
  | nil => exact ⟨[], by simp, .slnil⟩
  | cons a items ih =>
    rw [List.foldl_cons]
    obtain ⟨more, hmore, hsub⟩ := ih (place cells s a)
    unfold place at hmore ⊢
    split at hmore
    · next h =>
      rw [if_pos h]
      exact ⟨more, hmore, hsub.cons a⟩
    · next h =>
      rw [if_neg h]
      refine ⟨a :: more, ?_, hsub.cons_cons a⟩
      rw [hmore, List.append_assoc]
      rfl

theorem taken_sublist (items : List α) : (pack cells start items).taken.Sublist items := by
  obtain ⟨more, hmore, hsub⟩ := taken_foldl cells items ⟨[], start⟩
  unfold pack
  rw [hmore]
  exact hsub

/-- An item that comes first is taken if it fits. -/
theorem first_taken {a : α} {items : List α} (hcells : cells a ≠ [])
    (hfree : ∀ c ∈ cells a, c ∉ start) : a ∈ (pack cells start (a :: items)).taken := by
  have hplace : place cells ⟨[], start⟩ a = ⟨[a], start ∪ (cells a).toFinset⟩ := by
    unfold place
    rw [if_neg]
    · rfl
    · rintro (h | ⟨c, hc, hstart⟩)
      · exact hcells h
      · exact hfree c hc hstart
  obtain ⟨more, hmore, -⟩ := taken_foldl cells items ⟨[a], start ∪ (cells a).toFinset⟩
  unfold pack
  rw [List.foldl_cons, hplace, hmore]
  exact List.mem_append_left _ (List.mem_singleton.mpr rfl)

end Lib.Packing
