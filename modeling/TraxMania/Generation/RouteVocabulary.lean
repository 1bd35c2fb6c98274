import TraxMania.Generation.Grammar
import TraxMania.Lib.Firsts
import TraxMania.Lib.Layers
import Mathlib.Data.Finset.Sort
import Mathlib.Data.String.Basic

/-
  The route vocabulary as a set of distances: `route_vocabulary` with the rounds, the cut and the
  order in which a round goes over its frontier left open finds what lies within that many moves of
  the seeds, when a block leads to the first so many of its targets.
-/

namespace TraxMania.Generation.PlacementGrammar

open Lib

/-! ## The graph -/

/-- A move the vocabulary may follow: next to its source, attested by enough maps, to an allowed
block. -/
def Follows (allow : Finset String) (minMaps : Int) (m : Move) : Prop :=
  m.isOverlay = false ∧ m.isGap = false ∧ minMaps ≤ m.mapCount ∧ m.block ∈ allow

instance (allow : Finset String) (minMaps : Int) (m : Move) : Decidable (Follows allow minMaps m) :=
  inferInstanceAs (Decidable (_ ∧ _ ∧ _ ∧ _))

/-- The first `perBlock` distinct targets of a block's moves, in stored order. -/
def strongestTargets (g : PlacementGrammar) (allow : Finset String) (minMaps : Int)
    (perBlock : Nat) (block : String) : List String :=
  let moves := ((g.moves.get? block).getD []).filter fun m => decide (Follows allow minMaps m)
  (firsts id (moves.map Move.block)).take perBlock

/-- `block` leads to `target`. -/
def Leads (g : PlacementGrammar) (allow : Finset String) (minMaps : Int) (perBlock : Nat)
    (block target : String) : Prop :=
  target ∈ g.strongestTargets allow minMaps perBlock block

/-! ## The loop, in any order of the frontier -/

/-- `grown` after the loop over the blocks of the frontier. -/
def grownFrom (g : PlacementGrammar) (allow : Finset String) (minMaps : Int) (perBlock : Nat)
    (vocab : Finset String) (frontier : List String) : Finset String :=
  frontier.foldl (fun grown block =>
    grown ∪ newTargets vocab perBlock
      (g.successors block minMaps allow (some false) (some false)) ∅) ∅

/-- `route_vocabulary(seeds, allow, min_maps=…, rounds=…, per_block=…)`, where the round with
`left` rounds after it goes over its frontier in the order `order left`. -/
def vocabularyInOrder (g : PlacementGrammar) (order : Nat → Finset String → List String)
    (seeds : List String) (allow : Finset String) (minMaps : Int) (rounds perBlock : Nat) :
    Finset String :=
  growRounds (fun left vocab frontier =>
    g.grownFrom allow minMaps perBlock vocab (order left frontier))
    rounds seeds.toFinset seeds.toFinset

/-! ## One block -/

section OneBlock

variable {g : PlacementGrammar} {allow : Finset String} {minMaps : Int} {perBlock : Nat}
  {vocab : Finset String} {block target : String}

theorem successors_eq_follows (g : PlacementGrammar) (allow : Finset String) (minMaps : Int)
    (block : String) :
    g.successors block minMaps allow (some false) (some false) =
      ((g.moves.get? block).getD []).filter fun m => decide (Follows allow minMaps m) := by
  unfold successors
  refine List.filter_congr fun m _ => ?_
  rw [Bool.eq_iff_iff, decide_eq_true_iff]
  unfold Follows
  simp only [Bool.and_eq_true, Bool.not_eq_true', decide_eq_true_eq, decide_eq_false_iff_not,
    Option.all_some, beq_iff_eq]
  constructor
  · intro h
    exact ⟨h.1.2, h.2, by omega, h.1.1.2⟩
  · intro h
    exact ⟨⟨⟨by omega, h.2.2.2⟩, h.1⟩, h.2.1⟩

/-- What the loop over the moves adds: of the targets the cut leaves, those not in the
vocabulary. -/
theorem mem_newTargets (moves : List Move) (seen : Finset String) (hcard : seen.card ≤ perBlock) :
    target ∈ newTargets vocab perBlock moves seen ↔
      target ∉ vocab ∧
        target ∈ (firstsFrom id seen (moves.map Move.block)).take (perBlock - seen.card) := by
  induction moves generalizing seen with
  | nil => simp [newTargets, firstsFrom]
  | cons m moves ih =>
    rw [List.map_cons]
    unfold newTargets
    by_cases hs : m.block ∈ seen
    · have hkey : id m.block ∈ seen := hs
      rw [if_pos hs, firstsFrom_cons_pos hkey, ih seen hcard]
    · have hkey : id m.block ∉ seen := hs
      rw [if_neg hs, firstsFrom_cons_neg hkey]
      have hnew : (insert m.block seen).card = seen.card + 1 := Finset.card_insert_of_notMem hs
      dsimp only [id_eq]
      rw [hnew]
      by_cases hcut : perBlock < seen.card + 1
      · have h0 : perBlock - seen.card = 0 := by omega
        rw [if_pos hcut, h0]
        simp
      · have h1 : perBlock - seen.card = perBlock - (seen.card + 1) + 1 := by omega
        rw [if_neg hcut, h1, List.take_succ_cons, List.mem_cons]
        have hrest := ih (insert m.block seen) (by omega)
        rw [hnew] at hrest
        by_cases hv : m.block ∈ vocab
        · rw [if_pos hv, hrest]
          constructor
          · intro h
            exact ⟨h.1, Or.inr h.2⟩
          · intro h
            rcases h.2 with heq | htail
            · rw [heq] at h
              exact absurd hv h.1
            · exact ⟨h.1, htail⟩
        · rw [if_neg hv, Finset.mem_insert, hrest]
          constructor
          · intro h
            rcases h with heq | h
            · exact ⟨by rw [heq]; exact hv, Or.inl heq⟩
            · exact ⟨h.1, Or.inr h.2⟩
          · intro h
            rcases h.2 with heq | htail
            · exact Or.inl heq
            · exact Or.inr ⟨h.1, htail⟩

/-- A block of the frontier gives its new neighbours in the graph. -/
theorem mem_newTargets_iff_leads :
    target ∈ newTargets vocab perBlock
        (g.successors block minMaps allow (some false) (some false)) ∅ ↔
      target ∉ vocab ∧ g.Leads allow minMaps perBlock block target := by
  rw [mem_newTargets _ ∅ (by simp), successors_eq_follows]
  rfl

end OneBlock

/-! ## The rounds -/

section Rounds

variable {g : PlacementGrammar} {allow : Finset String} {minMaps : Int} {perBlock : Nat}
  {vocab : Finset String} {target : String}

theorem grownFrom_concat (frontier : List String) (block : String) :
    g.grownFrom allow minMaps perBlock vocab (frontier ++ [block]) =
      g.grownFrom allow minMaps perBlock vocab frontier ∪ newTargets vocab perBlock
        (g.successors block minMaps allow (some false) (some false)) ∅ := by
  unfold grownFrom
  rw [List.foldl_concat]

theorem mem_grownFrom (frontier : List String) :
    target ∈ g.grownFrom allow minMaps perBlock vocab frontier ↔
      target ∉ vocab ∧ ∃ block ∈ frontier, g.Leads allow minMaps perBlock block target := by
  induction frontier using List.reverseRecOn with
  | nil => simp [grownFrom]
  | append_singleton frontier block ih =>
    rw [grownFrom_concat, Finset.mem_union, ih, mem_newTargets_iff_leads, ← and_or_left]
    simp only [List.mem_append, List.mem_singleton, or_and_right, exists_or, exists_eq_left]

/-- Whatever the order, a round finds the new ends of the edges out of its frontier. -/
theorem findsNew_grownFrom {order : Nat → Finset String → List String}
    (horder : ∀ left frontier block, block ∈ order left frontier ↔ block ∈ frontier) :
    FindsNew (g.Leads allow minMaps perBlock) fun left vocab frontier =>
      g.grownFrom allow minMaps perBlock vocab (order left frontier) := by
  intro left vocab frontier target
  simp only [mem_grownFrom, horder]

/-- The vocabulary is what lies within `rounds` moves of a seed, whatever the order in which the
rounds go over their frontiers. -/
theorem mem_vocabularyInOrder (g : PlacementGrammar) {order : Nat → Finset String → List String}
    (horder : ∀ left frontier block, block ∈ order left frontier ↔ block ∈ frontier)
    (seeds : List String) (allow : Finset String) (minMaps : Int) (rounds perBlock : Nat)
    (block : String) :
    block ∈ g.vocabularyInOrder order seeds allow minMaps rounds perBlock ↔
      WithinSteps (g.Leads allow minMaps perBlock) {seed | seed ∈ seeds} rounds block := by
  unfold vocabularyInOrder
  rw [mem_growRounds (findsNew_grownFrom horder) rounds Layered.start, Nat.zero_add]
  simp only [List.mem_toFinset]

/-- A road from the start to the finish. -/
def roadGrammar : PlacementGrammar where
  moves := ⟨[("Start", [⟨"Straight", ⟨0, 0, 1⟩, 0, 30, 30, true⟩, ⟨"Wall", ⟨0, 1, 0⟩, 0, 40, 40, true⟩]),
    ("Straight", [⟨"Straight", ⟨0, 0, 1⟩, 0, 50, 90, true⟩, ⟨"Finish", ⟨0, 0, 1⟩, 2, 20, 20, true⟩])],
    by decide⟩

theorem mem_vocabularyInOrder_roadGrammar :
    "Finish" ∈ roadGrammar.vocabularyInOrder (fun _ frontier => frontier.sort) ["Start"]
      {"Straight", "Wall", "Finish"} 20 4 6 := by
  have hfirst : roadGrammar.Leads {"Straight", "Wall", "Finish"} 20 6 "Start" "Straight" := by
    unfold Leads
    decide
  have hlast : roadGrammar.Leads {"Straight", "Wall", "Finish"} 20 6 "Straight" "Finish" := by
    unfold Leads
    decide
  have hseed : "Start" ∈ ["Start"] := List.mem_singleton.mpr rfl
  exact (mem_vocabularyInOrder roadGrammar (fun _ _ _ => Finset.mem_sort _) ["Start"]
    {"Straight", "Wall", "Finish"} 20 4 6 "Finish").mpr
    ⟨"Start", hseed, 2, by omega, ((Steps.refl "Start").tail hfirst).tail hlast⟩

end Rounds

end TraxMania.Generation.PlacementGrammar
