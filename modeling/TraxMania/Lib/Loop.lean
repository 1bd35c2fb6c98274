import Mathlib.Data.Finset.Basic
import Mathlib.Data.Finset.Card
import Mathlib.Data.Finset.Union
import Mathlib.Logic.Relation

/-
  While loops given by their body. `step s` is one turn of the loop from the state `s`:
  `.inl r` leaves the loop with `r`, `.inr s'` goes round again. `run` gives the loop fuel,
  `runTotal` runs it to its end when a natural number goes down on every turn.

  Nothing here is about a program in particular.
-/

namespace Lib.Loop

variable {σ ρ : Type*}

/-- At most `n` turns of the loop; `none` when it is still going after them. -/
def run (step : σ → ρ ⊕ σ) : Nat → σ → Option ρ
  | 0, _ => none
  | n + 1, s =>
    match step s with
    | .inl r => some r
    | .inr s' => run step n s'

/-- The loop leaves with `r` when it starts in `s`. -/
def Yields (step : σ → ρ ⊕ σ) (s : σ) (r : ρ) : Prop := ∃ n, run step n s = some r

theorem run_succ_inl {step : σ → ρ ⊕ σ} {s : σ} {r : ρ} (n : Nat) (h : step s = .inl r) :
    run step (n + 1) s = some r := by
  simp only [run, h]

theorem run_succ_inr {step : σ → ρ ⊕ σ} {s s' : σ} (n : Nat) (h : step s = .inr s') :
    run step (n + 1) s = run step n s' := by
  simp only [run, h]

/-- More fuel does not change an answer. -/
theorem run_mono {step : σ → ρ ⊕ σ} {r : ρ} {n m : Nat} (hnm : n ≤ m) (s : σ)
    (h : run step n s = some r) : run step m s = some r := by
  induction n generalizing m s with
  | zero => simp [run] at h
  | succ n ih =>
    obtain ⟨m, rfl⟩ : ∃ k, m = k + 1 := ⟨m - 1, by omega⟩
    cases hs : step s with
    | inl r' => rwa [run_succ_inl _ hs] at h ⊢
    | inr s' =>
      rw [run_succ_inr _ hs] at h ⊢
      exact ih (by omega) s' h

theorem yields_unique {step : σ → ρ ⊕ σ} {s : σ} {r r' : ρ} (h : Yields step s r)
    (h' : Yields step s r') : r = r' := by
  obtain ⟨n, hn⟩ := h
  obtain ⟨m, hm⟩ := h'
  have h1 := run_mono (Nat.le_max_left n m) s hn
  have h2 := run_mono (Nat.le_max_right n m) s hm
  exact Option.some.inj (h1.symm.trans h2)

theorem yields_inl {step : σ → ρ ⊕ σ} {s : σ} {r : ρ} (h : step s = .inl r) :
    Yields step s r := ⟨1, run_succ_inl 0 h⟩

theorem yields_inr {step : σ → ρ ⊕ σ} {s s' : σ} {r : ρ} (h : step s = .inr s')
    (h' : Yields step s' r) : Yields step s r := by
  obtain ⟨n, hn⟩ := h'
  exact ⟨n + 1, by rw [run_succ_inr n h, hn]⟩

/-- A variant that goes down on every turn bounds the number of turns. -/
theorem run_isSome_of_variant (step : σ → ρ ⊕ σ) (μ : σ → Nat)
    (hμ : ∀ s s', step s = .inr s' → μ s' < μ s) (s : σ) (n : Nat) (hn : μ s < n) :
    (run step n s).isSome := by
  induction n generalizing s with
  | zero => omega
  | succ n ih =>
    cases hs : step s with
    | inl r => rw [run_succ_inl n hs]; rfl
    | inr s' =>
      rw [run_succ_inr n hs]
      have := hμ s s' hs
      exact ih s' (by omega)

/-- The loop run to its end, with the variant `μ` as its fuel. -/
def runTotal (step : σ → ρ ⊕ σ) (μ : σ → Nat)
    (hμ : ∀ s s', step s = .inr s' → μ s' < μ s) (s : σ) : ρ :=
  (run step (μ s + 1) s).get (run_isSome_of_variant step μ hμ s _ (Nat.lt_succ_self _))

theorem yields_runTotal (step : σ → ρ ⊕ σ) (μ : σ → Nat)
    (hμ : ∀ s s', step s = .inr s' → μ s' < μ s) (s : σ) :
    Yields step s (runTotal step μ hμ s) :=
  ⟨μ s + 1, (Option.some_get _).symm⟩

theorem runTotal_eq_of_yields {step : σ → ρ ⊕ σ} {μ : σ → Nat}
    (hμ : ∀ s s', step s = .inr s' → μ s' < μ s) {s : σ} {r : ρ} (h : Yields step s r) :
    runTotal step μ hμ s = r :=
  yields_unique (yields_runTotal step μ hμ s) h

/-- What every turn keeps holds of the state in which the loop leaves. -/
theorem exit_of_yields {step : σ → ρ ⊕ σ} {I : σ → Prop}
    (hI : ∀ s s', I s → step s = .inr s' → I s') {s : σ} {r : ρ} (hs : I s)
    (h : Yields step s r) : ∃ s', I s' ∧ step s' = .inl r := by
  obtain ⟨n, hn⟩ := h
  induction n generalizing s with
  | zero => cases hn
  | succ n ih =>
    cases hstep : step s with
    | inl r' =>
      rw [run_succ_inl n hstep] at hn
      obtain rfl := Option.some.inj hn
      exact ⟨s, hs, hstep⟩
    | inr s' =>
      rw [run_succ_inr n hstep] at hn
      exact ih (hI s s' hs hstep) hn

/-- The induction rule of a loop: what holds where it leaves, and goes back over each turn. -/
theorem yields_induction {step : σ → ρ ⊕ σ} {R : σ → ρ → Prop}
    (hleave : ∀ s r, step s = .inl r → R s r)
    (hturn : ∀ s s' r, step s = .inr s' → R s' r → R s r) {s : σ} {r : ρ}
    (h : Yields step s r) : R s r := by
  obtain ⟨n, hn⟩ := h
  induction n generalizing s with
  | zero => cases hn
  | succ n ih =>
    cases hstep : step s with
    | inl r' =>
      rw [run_succ_inl n hstep] at hn
      obtain rfl := Option.some.inj hn
      exact hleave s r' hstep
    | inr s' =>
      rw [run_succ_inr n hstep] at hn
      exact hturn s s' r hstep (ih hn)

end Lib.Loop

/-
  Breadth-first search from a list of sources: a `visited` set and a queue.

  Nothing here is about a program in particular.
-/

namespace Lib.Flood

open Lib.Loop

variable {α : Type*} [DecidableEq α]

/-- The variables of the search. -/
structure State (α : Type*) where
  visited : Finset α
  queue : List α

/-- `if a in visited: continue`, else it is marked and queued. -/
def visit (st : State α) (a : α) : State α :=
  if a ∈ st.visited then st else ⟨insert a st.visited, st.queue ++ [a]⟩

/-- One turn of `while queue`. -/
def turn (next : α → List α) (st : State α) : Finset α ⊕ State α :=
  match st.queue with
  | [] => .inl st.visited
  | cur :: rest => .inr ((next cur).foldl visit { st with queue := rest })

/-! ## The loop ends -/

/-- The turns still to come, when all successors are in `area`. -/
def work (area : Finset α) (st : State α) : Nat := 2 * (area \ st.visited).card + st.queue.length

theorem work_visit {area : Finset α} {a : α} (ha : a ∈ area) (st : State α) :
    work area (visit st a) ≤ work area st := by
  unfold visit
  split
  · exact le_refl _
  · next hv =>
    have hmem : a ∈ area \ st.visited := Finset.mem_sdiff.mpr ⟨ha, hv⟩
    have hcard : (area \ insert a st.visited).card + 1 = (area \ st.visited).card := by
      rw [Finset.sdiff_insert, Finset.card_erase_add_one hmem]
    unfold work
    simp only [List.length_append, List.length_singleton]
    omega

theorem work_foldl_visit {area : Finset α} {as : List α} (has : ∀ a ∈ as, a ∈ area)
    (st : State α) : work area (as.foldl visit st) ≤ work area st := by
  induction as generalizing st with
  | nil => exact le_refl _
  | cons a as ih =>
    have hrest := ih (fun b hb => has b (List.mem_cons_of_mem _ hb)) (visit st a)
    exact le_trans hrest (work_visit (has a List.mem_cons_self) st)

theorem work_turn {next : α → List α} {area : Finset α} (harea : ∀ a, ∀ b ∈ next a, b ∈ area)
    (st st' : State α) (h : turn next st = .inr st') : work area st' < work area st := by
  unfold turn at h
  split at h
  · cases h
  · next cur rest hq =>
    obtain rfl := Sum.inr.inj h
    have hle := work_foldl_visit (harea cur) { st with queue := rest }
    have hlt : work area { st with queue := rest } < work area st := by
      unfold work
      simp only [hq, List.length_cons]
      omega
    exact lt_of_le_of_lt hle hlt

/-- The cells the search visits. -/
def flood (next : α → List α) (area : Finset α) (harea : ∀ a, ∀ b ∈ next a, b ∈ area)
    (sources : List α) : Finset α :=
  runTotal (turn next) (work area) (work_turn harea) (sources.foldl visit ⟨∅, []⟩)

/-! ## What it visits -/

theorem mem_visited_foldl {as : List α} {st : State α} {x : α} :
    x ∈ (as.foldl visit st).visited ↔ x ∈ st.visited ∨ x ∈ as := by
  induction as generalizing st with
  | nil => simp
  | cons a as ih =>
    have hvisit : x ∈ (visit st a).visited ↔ x ∈ st.visited ∨ x = a := by
      unfold visit
      split
      · next ha =>
        constructor
        · exact Or.inl
        · rintro (h | rfl)
          · exact h
          · exact ha
      · rw [Finset.mem_insert, or_comm]
    rw [List.foldl_cons, ih, hvisit, List.mem_cons, or_assoc]

/-- What was queued stays, and what is newly visited is queued. -/
theorem mem_queue_foldl {as : List α} {st : State α} {x : α}
    (hx : x ∈ st.queue ∨ x ∉ st.visited) (hv : x ∈ (as.foldl visit st).visited) :
    x ∈ (as.foldl visit st).queue := by
  induction as generalizing st with
  | nil => exact hx.resolve_right fun h => h hv
  | cons a as ih =>
    refine ih ?_ hv
    unfold visit
    split
    · exact hx
    · by_cases hxa : x = a
      · exact Or.inl (List.mem_append_right _ (by rw [hxa]; exact List.mem_singleton_self a))
      · rcases hx with hq | hn
        · exact Or.inl (List.mem_append_left _ hq)
        · refine Or.inr fun hins => ?_
          rcases Finset.mem_insert.mp hins with h | h
          · exact hxa h
          · exact hn h

/-- A source leads to `x`. -/
def Reached (next : α → List α) (sources : List α) (x : α) : Prop :=
  ∃ s ∈ sources, Relation.ReflTransGen (fun a b => b ∈ next a) s x

/-- The invariant of `while queue`. -/
structure Inv (next : α → List α) (sources : List α) (st : State α) : Prop where
  sound : ∀ x ∈ st.visited, Reached next sources x
  queued : ∀ x ∈ st.queue, x ∈ st.visited
  sources : ∀ s ∈ sources, s ∈ st.visited
  closed : ∀ x ∈ st.visited, x ∈ st.queue ∨ ∀ b ∈ next x, b ∈ st.visited

theorem queue_foldl_visited {as : List α} {st : State α} (h : ∀ x ∈ st.queue, x ∈ st.visited) :
    ∀ x ∈ (as.foldl visit st).queue, x ∈ (as.foldl visit st).visited := by
  induction as generalizing st with
  | nil => exact h
  | cons a as ih =>
    refine ih ?_
    unfold visit
    split
    · exact h
    · intro x hx
      rcases List.mem_append.mp hx with hx | hx
      · exact Finset.mem_insert_of_mem (h x hx)
      · rw [List.mem_singleton.mp hx]
        exact Finset.mem_insert_self a _

theorem inv_start (next : α → List α) (sources : List α) :
    Inv next sources (sources.foldl visit ⟨∅, []⟩) where
  sound := by
    intro x hx
    have hmem : x ∈ sources := (mem_visited_foldl.mp hx).resolve_left (Finset.notMem_empty x)
    exact ⟨x, hmem, Relation.ReflTransGen.refl⟩
  queued := queue_foldl_visited (by simp)
  sources := fun s hs => mem_visited_foldl.mpr (Or.inr hs)
  closed := fun x hx => Or.inl (mem_queue_foldl (Or.inr (Finset.notMem_empty x)) hx)

theorem inv_turn {next : α → List α} {sources : List α} {st st' : State α}
    (hinv : Inv next sources st) (h : turn next st = .inr st') : Inv next sources st' := by
  unfold turn at h
  split at h
  · cases h
  · next cur rest hq =>
    obtain rfl := Sum.inr.inj h
    have hcur : cur ∈ st.visited := hinv.queued cur (by rw [hq]; exact List.mem_cons_self)
    have hrest : ∀ x ∈ rest, x ∈ st.visited :=
      fun x hx => hinv.queued x (by rw [hq]; exact List.mem_cons_of_mem _ hx)
    refine ⟨fun x hx => ?_, queue_foldl_visited hrest, fun s hs => ?_, fun x hx => ?_⟩
    · rcases mem_visited_foldl.mp hx with hx | hx
      · exact hinv.sound x hx
      · obtain ⟨s, hs, hpath⟩ := hinv.sound cur hcur
        exact ⟨s, hs, hpath.tail hx⟩
    · exact mem_visited_foldl.mpr (Or.inl (hinv.sources s hs))
    · by_cases hxv : x ∈ st.visited
      · rcases hinv.closed x hxv with hxq | hxc
        · rw [hq] at hxq
          rcases List.mem_cons.mp hxq with rfl | hxr
          · exact Or.inr fun b hb => mem_visited_foldl.mpr (Or.inr hb)
          · exact Or.inl (mem_queue_foldl (Or.inl hxr) hx)
        · exact Or.inr fun b hb => mem_visited_foldl.mpr (Or.inl (hxc b hb))
      · exact Or.inl (mem_queue_foldl (Or.inr hxv) hx)

/-- The search visits exactly what the sources lead to. -/
theorem mem_flood {next : α → List α} {area : Finset α} (harea : ∀ a, ∀ b ∈ next a, b ∈ area)
    {sources : List α} {x : α} :
    x ∈ flood next area harea sources ↔ Reached next sources x := by
  obtain ⟨st, hinv, hexit⟩ := exit_of_yields (I := Inv next sources)
    (fun _ _ hs h => inv_turn hs h) (inv_start next sources)
    (yields_runTotal (turn next) (work area) (work_turn harea) _)
  unfold turn at hexit
  split at hexit
  · next hq =>
    have hflood : flood next area harea sources = st.visited := (Sum.inl.inj hexit).symm
    rw [hflood]
    refine ⟨hinv.sound x, ?_⟩
    rintro ⟨s, hs, hpath⟩
    induction hpath with
    | refl => exact hinv.sources s hs
    | @tail b c _ hbc ih =>
      rcases hinv.closed b ih with hbq | hb
      · rw [hq] at hbq
        cases hbq
      · exact hb c hbc
  · cases hexit

end Lib.Flood
