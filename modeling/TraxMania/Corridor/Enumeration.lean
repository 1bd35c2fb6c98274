import TraxMania.Lib.Loop
import TraxMania.Grid.Cell
import Mathlib.Algebra.GroupWithZero.Nat

/-
  `_enumerate_simple_paths` of the corridor enumerator, as the source runs it: one `visited`
  set for the whole call, a stack of `(current, path, depth)` entries, entries marked when they
  are pushed and unmarked by the "backtrack" test. `.error paths` is an early `return paths`.

  The top of the stack is the head of the list.
-/

namespace TraxMania.Corridor

open TraxMania.Grid Lib.Loop

variable {α : Type*}

/-- One stack entry `(current, path, depth)`. -/
structure Entry (α : Type*) where
  current : α
  path : List α
  depth : Nat
deriving DecidableEq

/-- The variables of the search: `paths`, `visited`, `stack`. -/
structure Search (α : Type*) where
  paths : List (List α)
  visited : Finset α
  stack : List (Entry α)

/-- Where the search runs: `neighbors.get(c, ())`, the targets and the two caps. -/
structure Query (α : Type*) where
  neighbors : α → List α
  targets : FrozenSet α
  depthCap : Int
  hardCap : Int

namespace Query

variable (q : Query α)

/-! ## What an entry can still push, bounded by the depth cap -/

/-- Entries that can come out of a cell with `r` steps left to the cap, itself included. -/
def weight : Nat → α → Nat
  | 0, _ => 1
  | r + 1, c => 1 + ((q.neighbors c).map (weight r)).sum

/-- Steps left to the depth cap at `depth`. -/
def left (depth : Nat) : Nat := (q.depthCap - depth).toNat

def entryWeight (e : Entry α) : Nat := q.weight (q.left e.depth) e.current

def stackWeight (st : Search α) : Nat := (st.stack.map q.entryWeight).sum

theorem weight_pos (r : Nat) (c : α) : 0 < q.weight r c := by
  cases r with
  | zero => simp [weight]
  | succ r => simp only [weight]; omega

theorem left_succ {depth : Nat} (h : ¬ q.depthCap ≤ depth) :
    q.left depth = q.left (depth + 1) + 1 := by
  simp only [left]
  omega

/-! ## The search -/

variable [DecidableEq α]

/-- `for nb in neighbors.get(current, ())` for an entry with the given `path` and `depth`. -/
def scan (path : List α) (depth : Nat) : List α → Search α → Except (List (List α)) (Search α)
  | [], st => .ok st
  | nb :: nbs, st =>
    if nb ∈ st.visited then scan path depth nbs st
    else if nb ∈ q.targets then
      let paths := st.paths ++ [path ++ [nb]]
      if q.hardCap ≤ paths.length then .error paths
      else scan path depth nbs { st with paths := paths }
    else
      scan path depth nbs
        { st with
          visited := insert nb st.visited
          stack := ⟨nb, path ++ [nb], depth + 1⟩ :: st.stack }

/-- The backtrack: `current` is unmarked when none of its neighbours is unmarked. -/
def backtrack (current : α) (st : Search α) : Search α :=
  if (q.neighbors current).any (fun nb => decide (nb ∉ st.visited)) then st
  else { st with visited := st.visited.erase current }

/-- The body of `while stack`, for the entry just popped. -/
def expand (e : Entry α) (st : Search α) : Except (List (List α)) (Search α) :=
  if q.hardCap ≤ st.paths.length then .error st.paths
  else if q.depthCap ≤ e.depth then .ok { st with visited := st.visited.erase e.current }
  else (q.scan e.path e.depth (q.neighbors e.current) st).map (q.backtrack e.current)

/-- One turn of `while stack`. -/
def turn (st : Search α) : Except (List (List α)) (Search α) ⊕ Search α :=
  match st.stack with
  | [] => .inl (.ok st)
  | e :: rest =>
    match q.expand e { st with stack := rest } with
    | .error paths => .inl (.error paths)
    | .ok st' => .inr st'

/-! ## The loop ends -/

theorem stackWeight_backtrack (c : α) (st : Search α) :
    q.stackWeight (q.backtrack c st) = q.stackWeight st := by
  unfold backtrack
  split <;> rfl

/-- A scan pushes at most one entry for each neighbour. -/
theorem stackWeight_scan (path : List α) (depth : Nat) (nbs : List α) (st st' : Search α)
    (h : q.scan path depth nbs st = .ok st') :
    q.stackWeight st' ≤
      q.stackWeight st + (nbs.map (q.weight (q.left (depth + 1)))).sum := by
  induction nbs generalizing st with
  | nil =>
    simp only [scan, Except.ok.injEq] at h
    simp [h]
  | cons nb nbs ih =>
    simp only [scan] at h
    simp only [List.map_cons, List.sum_cons]
    split at h
    · have := ih st h
      omega
    · split at h
      · split at h
        · simp at h
        · have := ih _ h
          simp only [stackWeight] at this ⊢
          omega
      · have := ih _ h
        simp only [stackWeight, List.map_cons, List.sum_cons, entryWeight] at this ⊢
        omega

/-- Every turn of `while stack` lowers the weight of the stack. -/
theorem stackWeight_turn (st st' : Search α) (h : q.turn st = .inr st') :
    q.stackWeight st' < q.stackWeight st := by
  unfold turn at h
  split at h
  · simp at h
  · next e rest hst =>
    have hw : q.stackWeight st = q.entryWeight e + q.stackWeight { st with stack := rest } := by
      simp [stackWeight, hst]
    have hpos : 0 < q.entryWeight e := q.weight_pos _ _
    split at h
    · simp at h
    · next st'' hex =>
      cases h
      unfold expand at hex
      split at hex
      · simp at hex
      · split at hex
        · cases hex
          simp only [stackWeight] at hw ⊢
          omega
        · next hd =>
          cases hsc : q.scan e.path e.depth (q.neighbors e.current) { st with stack := rest } with
          | error ps => rw [hsc] at hex; simp [Except.map] at hex
          | ok st₁ =>
            rw [hsc] at hex
            simp only [Except.map, Except.ok.injEq] at hex
            have h1 := q.stackWeight_scan _ _ _ _ _ hsc
            have h2 : q.entryWeight e =
                1 + ((q.neighbors e.current).map (q.weight (q.left (e.depth + 1)))).sum := by
              simp only [entryWeight, q.left_succ hd, weight]
            rw [← hex, stackWeight_backtrack]
            omega

/-- `while stack`, from its entry to its exit. -/
def whileStack (st : Search α) : Except (List (List α)) (Search α) :=
  runTotal q.turn q.stackWeight q.stackWeight_turn st

/-- The body of `for start in sources`; `(paths, visited)` is what it carries on. -/
def fromSource (acc : List (List α) × Finset α) (start : α) :
    Except (List (List α)) (List (List α) × Finset α) :=
  if start ∈ q.targets then
    let paths := acc.1 ++ [[start]]
    if q.hardCap ≤ paths.length then .error paths else .ok (paths, acc.2)
  else
    (q.whileStack ⟨acc.1, insert start acc.2, [⟨start, [start], 0⟩]⟩).map
      fun st => (st.paths, st.visited.erase start)

end Query

/-- `DEFAULT_DEPTH_CAP`. -/
def defaultDepthCap : Int := 10

/-- `P95_PATH_COUNT_CAP`, the default `hard_cap`. -/
def p95PathCountCap : Int := 10000

/-- `neighbors.get(c, ())` of a neighbour map given by its items. -/
def neighborsOf [DecidableEq α] (items : List (α × List α)) (c : α) : List α :=
  (items.lookup c).getD []

/-- `_enumerate_simple_paths(neighbors, sources, targets, depth_cap, hard_cap)`. -/
def enumerateSimplePaths [DecidableEq α] (neighbors : α → List α) (sources targets : FrozenSet α)
    (depthCap hardCap : Int) : List (List α) :=
  match sources.elems.foldlM (Query.fromSource ⟨neighbors, targets, depthCap, hardCap⟩) ([], ∅) with
  | .error paths => paths
  | .ok acc => acc.1

end TraxMania.Corridor
