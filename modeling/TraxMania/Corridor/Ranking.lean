import TraxMania.Corridor.EnumerationComplete
import TraxMania.Lib.SortBy
import Mathlib.Data.List.Lex

/-
  The graph the enumerator searches (seed adjacency and the virtual edges of the observations) and
  the ranking of the paths it finds: fewest cells first, then lexicographic.
-/

namespace TraxMania.Corridor

open TraxMania.Grid Lib.SortBy

variable {α : Type*} [LinearOrder α]

/-! ## The graph -/

/-- `combined` and `virtual` while the observations are added. -/
abbrev Augmented (α : Type*) := (α → List α) × Finset (α × α)

/-- `combined[a].append(b)`. -/
def appendNeighbor (combined : α → List α) (a b : α) : α → List α :=
  Function.update combined a (combined a ++ [b])

/-- The body of the inner loop, for the cells `a` and `b` of one observation. -/
def linkPair (acc : Augmented α) (a b : α) : Augmented α :=
  let pair := (min a b, max a b)
  if pair ∈ acc.2 then acc
  else (appendNeighbor (appendNeighbor acc.1 a b) b a, insert pair acc.2)

/-- `for i, a in enumerate(cells): for b in cells[i + 1:]`. -/
def linkCells (acc : Augmented α) : List α → Augmented α
  | [] => acc
  | a :: rest => linkCells (rest.foldl (fun acc b => linkPair acc a b) acc) rest

/-- `_build_enumeration_graph(neighbors_seed, observation_sets)`. -/
def buildEnumerationGraph (neighborsSeed : α → List α) (observationSets : List (FrozenSet α)) :
    Augmented α :=
  observationSets.foldl (fun acc obs => linkCells acc obs.elems) (neighborsSeed, ∅)

/-! ## The ranking -/

/-- `(len(p), tuple(p))`. -/
def rankKey (p : List α) : Nat ×ₗ List α := toLex (p.length, p)

/-- `_rank_paths(paths)`. -/
def rankPaths (paths : List (List α)) : List (List α) := sortBy rankKey paths

/-- `_top_ranked_path(paths)`. -/
def topRankedPath (paths : List (List α)) : Option (List α) :=
  if paths = [] then none else (sortBy rankKey paths).head?

omit [LinearOrder α] in
theorem rankKey_injective : Function.Injective (rankKey (α := α)) := by
  intro p q h
  exact (Prod.mk.inj (toLex.injective h)).2

theorem rankKey_le {p q : List α} :
    rankKey p ≤ rankKey q ↔ p.length < q.length ∨ p.length = q.length ∧ p ≤ q := by
  unfold rankKey
  rw [Prod.Lex.toLex_le_toLex]

end TraxMania.Corridor
