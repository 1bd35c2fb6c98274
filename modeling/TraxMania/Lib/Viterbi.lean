import TraxMania.Lib.Dict
import Mathlib.Algebra.Order.Monoid.Defs
import Mathlib.Data.List.MinMax

/-
  A cheapest chain through layers of states: forward over the layers with the best cost of each
  state and a back pointer, then back from the cheapest last state. The chain that is read back is
  cheapest among all chains.

  Nothing here is about a program in particular.
-/

namespace Lib.Viterbi

open Lib

/-- The states to choose from at one step, and what each one costs. -/
structure Layer (S K : Type) where
  states : List S
  emit : S → K

/-! ## A dictionary over a list of keys -/

section Tabulate

variable {S V : Type} [DecidableEq S]

/-- The dictionary that has `f s` at every `s` of the list for which it is something. -/
def tabulate (f : S → Option V) (states : List S) (init : Dict S V) : Dict S V :=
  states.foldl (fun acc s =>
    match f s with
    | none => acc
    | some v => acc.upsert s fun _ => v) init

theorem get?_tabulate (f : S → Option V) (states : List S) (init : Dict S V) (k : S) :
    (tabulate f states init).get? k =
      if k ∈ states then (f k).or (init.get? k) else init.get? k := by
  unfold tabulate
  induction states generalizing init with
  | nil => simp
  | cons s states ih =>
    rw [List.foldl_cons, ih]
    by_cases hk : k = s
    · subst hk
      cases hf : f k with
      | none => simp
      | some v => simp [Dict.get?_upsert]
    · simp only [List.mem_cons, hk, false_or]
      cases hf : f s with
      | none => rfl
      | some v => simp only [Dict.get?_upsert, if_neg hk]

/-- Over the empty dictionary. -/
theorem get?_tabulate_empty (f : S → Option V) (states : List S) (k : S) :
    (tabulate f states Dict.empty).get? k = if k ∈ states then f k else none := by
  rw [get?_tabulate]
  have hempty : (Dict.empty : Dict S V).get? k = none := rfl
  rw [hempty, Option.or_none]

end Tabulate

/-! ## The search -/

variable {S K : Type} [DecidableEq S]

section Search

variable [Add K] [LinearOrder K]

/-- The entry of a table from which `s` is reached most cheaply, the first one among equals. -/
def bestInto (step : S → S → K) (table : Dict S K) (s : S) : Option (S × K) :=
  table.items.argmin fun p => p.2 + step p.1 s

/-- The tables of a step: the best cost of each state and its back pointer. -/
def relax (step : S → S → K) (table : Dict S K) (layer : Layer S K) : Dict S K × Dict S S :=
  (tabulate (fun s => (bestInto step table s).map fun p => p.2 + step p.1 s + layer.emit s)
      layer.states Dict.empty,
    tabulate (fun s => (bestInto step table s).map Prod.fst) layer.states Dict.empty)

/-- The table of the first step. -/
def start (layer : Layer S K) : Dict S K :=
  tabulate (fun s => some (layer.emit s)) layer.states Dict.empty

/-- The last table and the back pointers of all steps. -/
def forward (step : S → S → K) : Dict S K → List (Layer S K) → Dict S K × List (Dict S S)
  | table, [] => (table, [])
  | table, layer :: layers =>
    let next := relax step table layer
    let rest := forward step next.1 layers
    (rest.1, next.2 :: rest.2)

/-- The state with the least cost, the first one among equals. -/
def cheapest (table : Dict S K) : Option S := (table.items.argmin Prod.snd).map Prod.fst

/-- The chain that the back pointers give for its last state. -/
def trace : List (Dict S S) → S → Option (List S)
  | [], s => some [s]
  | back :: backs, s =>
    match trace backs s with
    | none => none
    | some path =>
      match path.head?.bind back.get? with
      | none => none
      | some p => some (p :: path)

/-- The whole search over a first layer and the others. -/
def solve (step : S → S → K) (first : Layer S K) (rest : List (Layer S K)) : Option (List S) :=
  let tables := forward step (start first) rest
  (cheapest tables.1).bind (trace tables.2)

end Search

/-! ## Chains and their costs -/

/-- One state of each layer, in the order of the layers. -/
def IsChain (layers : List (Layer S K)) (chain : List S) : Prop :=
  List.Forall₂ (fun layer s => s ∈ layer.states) layers chain

section Costs

variable [AddMonoid K]

/-- What a chain costs after its state `p`: each step, and each state that it enters. -/
def tailCost (step : S → S → K) : S → List (Layer S K) → List S → K
  | p, layer :: layers, s :: chain => step p s + layer.emit s + tailCost step s layers chain
  | _, _, _ => 0

/-- What a chain costs. -/
def chainCost (step : S → S → K) : List (Layer S K) → List S → K
  | layer :: layers, s :: chain => layer.emit s + tailCost step s layers chain
  | _, _ => 0

end Costs

/-! ## The tables are lower bounds, and the back pointers meet them -/

section Correct

variable [AddMonoid K] [LinearOrder K] [AddRightMono K]
variable {step : S → S → K} {table : Dict S K} {layer : Layer S K}

omit [AddMonoid K] [LinearOrder K] [AddRightMono K] in
theorem get?_start (first : Layer S K) (s : S) :
    (start first).get? s = if s ∈ first.states then some (first.emit s) else none :=
  get?_tabulate_empty _ _ _

omit [AddRightMono K] in
theorem get?_relax (s : S) (hs : s ∈ layer.states) :
    (relax step table layer).1.get? s =
      (bestInto step table s).map fun p => p.2 + step p.1 s + layer.emit s := by
  rw [relax, get?_tabulate_empty, if_pos hs]

omit [AddRightMono K] in
/-- An entry of the next table is a cheapest step from an entry of the table before. -/
theorem relax_inv {s : S} {c : K} (h : (relax step table layer).1.get? s = some c) :
    s ∈ layer.states ∧ ∃ p pc, table.get? p = some pc ∧ c = pc + step p s + layer.emit s ∧
      (relax step table layer).2.get? s = some p := by
  have hs : s ∈ layer.states := by
    by_contra hs
    rw [relax, get?_tabulate_empty, if_neg hs] at h
    cases h
  rw [get?_relax s hs] at h
  obtain ⟨best, hbest, hc⟩ := Option.map_eq_some_iff.mp h
  have hmem : best ∈ table.items := List.argmin_mem hbest
  have hback : (relax step table layer).2.get? s = some best.1 := by
    rw [relax, get?_tabulate_empty, if_pos hs, hbest, Option.map_some]
  exact ⟨hs, best.1, best.2, Dict.get?_eq_some hmem, hc.symm, hback⟩

/-- No step into a state of the layer is cheaper than the next table says. -/
theorem relax_le {q s : S} {qc : K} (hq : table.get? q = some qc) (hs : s ∈ layer.states) :
    ∃ c, (relax step table layer).1.get? s = some c ∧ c ≤ qc + step q s + layer.emit s := by
  have hmem : (q, qc) ∈ table.items := Dict.mem_items_of_get? hq
  have hsome : bestInto step table s ≠ none := by
    intro hnone
    rw [bestInto, List.argmin_eq_none] at hnone
    rw [hnone] at hmem
    cases hmem
  obtain ⟨best, hbest⟩ := Option.ne_none_iff_exists'.mp hsome
  have hle : best.2 + step best.1 s ≤ qc + step q s := List.le_of_mem_argmin hmem hbest
  refine ⟨best.2 + step best.1 s + layer.emit s, ?_, ?_⟩
  · rw [get?_relax s hs, hbest, Option.map_some]
  · gcongr

/-- No chain from a state of the table is cheaper than the last table says. -/
theorem forward_le (step : S → S → K) (layers : List (Layer S K)) :
    ∀ {table : Dict S K} {q : S} {qc : K} {chain : List S}, table.get? q = some qc →
      IsChain layers chain →
      ∃ z c, (forward step table layers).1.get? z = some c ∧
        c ≤ qc + tailCost step q layers chain := by
  induction layers with
  | nil =>
    intro table q qc chain hq hchain
    refine ⟨q, qc, hq, ?_⟩
    rw [tailCost, add_zero]
    simp
  | cons layer layers ih =>
    intro table q qc chain hq hchain
    obtain ⟨s, rest, hs, hrest, rfl⟩ := List.forall₂_cons_left_iff.mp hchain
    obtain ⟨sc, hsc, hle⟩ := relax_le hq hs
    obtain ⟨z, c, hz, hc⟩ := ih hsc hrest
    refine ⟨z, c, hz, hc.trans ?_⟩
    calc sc + tailCost step s layers rest
        ≤ qc + step q s + layer.emit s + tailCost step s layers rest := by gcongr
      _ = qc + tailCost step q (layer :: layers) (s :: rest) := by
        rw [tailCost, add_assoc, add_assoc, add_assoc]

omit [AddRightMono K] in
/-- The chain that is read back for an entry of the last table costs what the entry says. -/
theorem trace_cost (layers : List (Layer S K)) :
    ∀ {table : Dict S K} {z : S} {c : K}, (forward step table layers).1.get? z = some c →
      ∃ p pc chain, trace (forward step table layers).2 z = some (p :: chain) ∧
        table.get? p = some pc ∧ IsChain layers chain ∧
        c = pc + tailCost step p layers chain := by
  induction layers with
  | nil =>
    intro table z c hz
    refine ⟨z, c, [], rfl, hz, List.Forall₂.nil, ?_⟩
    rw [tailCost, add_zero]
    simp
  | cons layer layers ih =>
    intro table z c hz
    obtain ⟨s, sc, rest, htrace, hsc, hrest, hc⟩ := ih hz
    obtain ⟨hs, p, pc, hp, hcost, hback⟩ := relax_inv hsc
    refine ⟨p, pc, s :: rest, ?_, hp, List.Forall₂.cons hs hrest, ?_⟩
    · simp only [forward, trace, htrace, List.head?_cons, Option.bind_some, hback]
    · rw [hc, hcost, tailCost, add_assoc, add_assoc, add_assoc]

/-- A chain that is found is a cheapest one. -/
theorem solve_optimal {first : Layer S K} {rest : List (Layer S K)} {path : List S}
    (h : solve step first rest = some path) :
    IsChain (first :: rest) path ∧ ∀ other, IsChain (first :: rest) other →
      chainCost step (first :: rest) path ≤ chainCost step (first :: rest) other := by
  obtain ⟨z, hz, htrace⟩ := Option.bind_eq_some_iff.mp h
  obtain ⟨entry, hentry, rfl⟩ := Option.map_eq_some_iff.mp hz
  have hget := Dict.get?_eq_some (List.argmin_mem hentry)
  obtain ⟨p, pc, chain, hpath, hp, hchain, hcost⟩ := trace_cost rest hget
  obtain rfl : p :: chain = path := Option.some.inj (hpath.symm.trans htrace)
  have hmem : ∀ {s c}, (start first).get? s = some c → s ∈ first.states ∧ c = first.emit s := by
    intro s c hs
    rw [get?_start] at hs
    split at hs
    · next hin => exact ⟨hin, (Option.some.inj hs).symm⟩
    · cases hs
  obtain ⟨hin, rfl⟩ := hmem hp
  refine ⟨List.Forall₂.cons hin hchain, fun other hother => ?_⟩
  obtain ⟨q, tail, hq, htail, rfl⟩ := List.forall₂_cons_left_iff.mp hother
  have hstart : (start first).get? q = some (first.emit q) := by rw [get?_start, if_pos hq]
  obtain ⟨z', c', hz', hle⟩ := forward_le step rest hstart htail
  have hleast : entry.2 ≤ c' := List.le_of_mem_argmin (Dict.mem_items_of_get? hz') hentry
  calc chainCost step (first :: rest) (p :: chain) = entry.2 := hcost.symm
    _ ≤ c' := hleast
    _ ≤ chainCost step (first :: rest) (q :: tail) := hle

/-- A chain is found when every layer has a state. -/
theorem solve_isSome (step : S → S → K) {first : Layer S K} {rest : List (Layer S K)}
    (hfirst : first.states ≠ []) (hrest : ∀ layer ∈ rest, layer.states ≠ []) :
    ∃ path, solve step first rest = some path := by
  obtain ⟨q, hq⟩ := List.exists_mem_of_ne_nil _ hfirst
  have hstart : (start first).get? q = some (first.emit q) := by rw [get?_start, if_pos hq]
  have hchain : ∃ chain, IsChain rest chain := by
    induction rest with
    | nil => exact ⟨[], List.Forall₂.nil⟩
    | cons layer layers ih =>
      obtain ⟨s, hs⟩ := List.exists_mem_of_ne_nil _ (hrest layer List.mem_cons_self)
      obtain ⟨chain, hchain⟩ := ih fun l hl => hrest l (List.mem_cons_of_mem _ hl)
      exact ⟨s :: chain, List.Forall₂.cons hs hchain⟩
  obtain ⟨chain, hchain⟩ := hchain
  obtain ⟨z', c', hz', -⟩ := forward_le step rest hstart hchain
  have hmem := Dict.mem_items_of_get? hz'
  have hsome : cheapest (forward step (start first) rest).1 ≠ none := by
    intro hnone
    rw [cheapest, Option.map_eq_none_iff, List.argmin_eq_none] at hnone
    rw [hnone] at hmem
    cases hmem
  obtain ⟨z, hz⟩ := Option.ne_none_iff_exists'.mp hsome
  obtain ⟨entry, hentry, rfl⟩ := Option.map_eq_some_iff.mp hz
  obtain ⟨p, pc, path, hpath, -⟩ := trace_cost rest (Dict.get?_eq_some (List.argmin_mem hentry))
  exact ⟨p :: path, by rw [solve, hz]; exact hpath⟩

end Correct

end Lib.Viterbi
