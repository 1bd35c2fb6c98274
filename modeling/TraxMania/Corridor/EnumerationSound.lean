import TraxMania.Corridor.EnumerationRun
import TraxMania.Corridor.ExploreClean

/-
  What a corridor is, and that the enumerator returns nothing else: it ends, it keeps to its caps,
  and every path it returns is a simple path from a source to its first target.

  A corridor is an approach, from a source to a cell that touches a target, and that target
  (`isCorridor_iff`).
-/

namespace TraxMania.Corridor

open TraxMania.Grid Lib.Loop

variable {α : Type*}

/-- A simple path from a source to a target, with no target on the way, of at most `depthCap`
    steps. -/
structure IsCorridor (neighbors : α → List α) (sources targets : FrozenSet α) (depthCap : Int)
    (p : List α) : Prop where
  starts : ∃ s ∈ sources, p.head? = some s
  ends : ∃ t ∈ targets, p.getLast? = some t
  early : ∀ x ∈ p.dropLast, x ∉ targets
  steps : p.IsChain fun x y => y ∈ neighbors x
  short : (p.length : Int) - 1 ≤ depthCap
  simple : p.Nodup

/-- A simple path from `s` that meets no target and is short enough to go one step further. -/
structure IsApproach (N : α → List α) (T : α → Prop) (r : Nat) (s : α) (a : Approach α) :
    Prop where
  start : (a.1 :: a.2).getLast? = some s
  chain : (a.1 :: a.2).IsChain fun x y => x ∈ N y
  wall : ∀ x ∈ a.1 :: a.2, ¬ T x
  cap : a.2.length < r
  simple : (a.1 :: a.2).Nodup

/-- The path of an approach that goes on to `t`. -/
def goOn (a : Approach α) (t : α) : List α := (a.1 :: a.2).reverse ++ [t]

theorem goOn_inj {a b : Approach α} {t u : α} : goOn a t = goOn b u ↔ a = b ∧ t = u := by
  unfold goOn
  constructor
  · intro h
    obtain ⟨h1, h2⟩ := List.append_inj' h rfl
    have h3 := List.reverse_injective h1
    exact ⟨Prod.ext (List.cons.inj h3).1 (List.cons.inj h3).2, by simpa using h2⟩
  · rintro ⟨rfl, rfl⟩
    rfl

theorem mem_recorded {N : α → List α} {T : α → Prop} [DecidablePred T] {a : Approach α}
    {p : List α} : p ∈ recorded N T a ↔ ∃ t ∈ N a.1, T t ∧ p = goOn a t := by
  unfold recorded goOn
  simp only [List.mem_map, List.mem_filter, decide_eq_true_eq]
  constructor
  · rintro ⟨t, ⟨ht, hT⟩, rfl⟩
    exact ⟨t, ht, hT, rfl⟩
  · rintro ⟨t, ht, hT, rfl⟩
    exact ⟨t, ⟨ht, hT⟩, rfl⟩

section Corridors

variable {neighbors : α → List α} {sources targets : FrozenSet α} {depthCap : Int}

theorem isCorridor_single {s : α} (hs : s ∈ sources) (ht : s ∈ targets) (hd : 0 ≤ depthCap) :
    IsCorridor neighbors sources targets depthCap [s] where
  starts := ⟨s, hs, rfl⟩
  ends := ⟨s, ht, rfl⟩
  early := by simp
  steps := List.IsChain.singleton s
  short := by simpa using hd
  simple := List.nodup_singleton s

theorem isCorridor_goOn {s t : α} {a : Approach α} (hs : s ∈ sources)
    (ha : IsApproach neighbors (· ∈ targets) depthCap.toNat s a) (ht : t ∈ neighbors a.1)
    (hT : t ∈ targets) : IsCorridor neighbors sources targets depthCap (goOn a t) where
  starts := by
    refine ⟨s, hs, ?_⟩
    unfold goOn
    rw [List.head?_append_of_ne_nil _ (by simp), List.head?_reverse, ha.start]
  ends := ⟨t, hT, by simp [goOn]⟩
  early := by
    intro x hx
    rw [goOn, List.dropLast_concat, List.mem_reverse] at hx
    exact ha.wall x hx
  steps := by
    unfold goOn
    rw [List.isChain_append]
    refine ⟨List.isChain_reverse.mpr ha.chain, List.IsChain.singleton t, ?_⟩
    intro x hx y hy
    simp only [List.getLast?_reverse, List.head?_cons, Option.mem_def, Option.some.injEq] at hx hy
    subst hx hy
    exact ht
  short := by
    have h := ha.cap
    simp only [goOn, List.length_append, List.length_reverse, List.length_cons, List.length_nil]
    omega
  simple := by
    unfold goOn
    rw [List.nodup_append]
    refine ⟨List.nodup_reverse.mpr ha.simple, List.nodup_singleton t, ?_⟩
    intro x hx y hy
    rw [List.mem_reverse] at hx
    rw [List.mem_singleton] at hy
    subst hy
    exact fun e => ha.wall x hx (e ▸ hT)

theorem isCorridor_iff {p : List α} :
    IsCorridor neighbors sources targets depthCap p ↔
      (∃ s ∈ sources, s ∈ targets ∧ 0 ≤ depthCap ∧ p = [s]) ∨
      ∃ s ∈ sources, ∃ a, IsApproach neighbors (· ∈ targets) depthCap.toNat s a ∧
        ∃ t ∈ neighbors a.1, t ∈ targets ∧ p = goOn a t := by
  constructor
  · intro h
    obtain ⟨s, hs, hhead⟩ := h.starts
    obtain ⟨t, ht, hlast⟩ := h.ends
    obtain ⟨init, rfl⟩ := List.getLast?_eq_some_iff.mp hlast
    have hshort := h.short
    rw [List.length_append, List.length_singleton] at hshort
    rcases hinit : init.reverse with _ | ⟨c, anc⟩
    · rw [List.reverse_eq_nil_iff] at hinit
      subst hinit
      obtain rfl : t = s := by simpa using hhead
      exact Or.inl ⟨t, hs, ht, by simpa using hshort, rfl⟩
    · obtain rfl : init = (c :: anc).reverse := by rw [← hinit, List.reverse_reverse]
      have hsteps := List.isChain_append.mp h.steps
      refine Or.inr ⟨s, hs, (c, anc), ?_, t, ?_, ht, rfl⟩
      · refine ⟨?_, List.isChain_reverse.mp hsteps.1, ?_, ?_, ?_⟩
        · rw [List.head?_append_of_ne_nil _ (by simp), List.head?_reverse] at hhead
          exact hhead
        · intro x hx
          exact h.early x (by rw [List.dropLast_concat]; exact List.mem_reverse.mpr hx)
        · simp only [List.length_reverse, List.length_cons] at hshort
          show anc.length < depthCap.toNat
          omega
        · exact List.nodup_reverse.mp (List.nodup_append.mp h.simple).1
      · exact hsteps.2.2 c (by simp) t rfl
  · rintro (⟨s, hs, ht, hd, rfl⟩ | ⟨s, hs, a, ha, t, ht, hT, rfl⟩)
    · exact isCorridor_single hs ht hd
    · exact isCorridor_goOn hs ha ht hT

end Corridors

/-! ## The runs below the sources -/

variable [DecidableEq α] {N : α → List α} {T : α → Prop} [DecidablePred T]

/-- The marks when the sources `S` have been searched. -/
def marksAfter (N : α → List α) (T : α → Prop) [DecidablePred T] (r : Nat) :
    Finset α → List α → Finset α
  | V, [] => V
  | V, s :: S =>
    marksAfter N T r (if T s then V else (explore N T r (insert s V) s []).1.erase s) S

/-- The approaches expanded below the source that follows the sources `S`. -/
def runOf (N : α → List α) (T : α → Prop) [DecidablePred T] (r : Nat) (V : Finset α)
    (S : List α) (s : α) : List (Approach α) :=
  if T s then [] else (explore N T r (insert s (marksAfter N T r V S)) s []).2

theorem mem_sweep {r : Nat} {V : Finset α} {S : List α} {s : α} {E : List (Approach α)} :
    (s, E) ∈ sweep N T r V S ↔ ∃ pre post, S = pre ++ s :: post ∧ E = runOf N T r V pre s := by
  induction S generalizing V with
  | nil => simp [sweep]
  | cons s' S ih =>
    have hcons : ∀ {V' : Finset α} {E' : List (Approach α)},
        (∀ pre x, runOf N T r V' pre x = runOf N T r V (s' :: pre) x) →
        runOf N T r V [] s' = E' →
        ((s, E) ∈ (s', E') :: sweep N T r V' S ↔
          ∃ pre post, s' :: S = pre ++ s :: post ∧ E = runOf N T r V pre s) := by
      intro V' E' hpre hE'
      rw [List.mem_cons, ih]
      constructor
      · rintro (h | ⟨pre, post, rfl, rfl⟩)
        · simp only [Prod.mk.injEq] at h
          obtain ⟨rfl, rfl⟩ := h
          exact ⟨[], S, rfl, hE'.symm⟩
        · exact ⟨s' :: pre, post, rfl, hpre pre s⟩
      · rintro ⟨pre, post, hS, rfl⟩
        cases pre with
        | nil =>
          obtain ⟨rfl, rfl⟩ : s' = s ∧ S = post := by simpa using hS
          exact Or.inl (by rw [hE'])
        | cons x pre =>
          obtain ⟨rfl, rfl⟩ : s' = x ∧ S = pre ++ s :: post := by simpa using hS
          exact Or.inr ⟨pre, post, rfl, (hpre pre s).symm⟩
    unfold sweep
    split
    · next hT => exact hcons (fun pre x => by simp [runOf, marksAfter, hT]) (by simp [runOf, hT])
    · next hT =>
      exact hcons (fun pre x => by simp [runOf, marksAfter, hT])
        (by simp [runOf, marksAfter, hT])

theorem mem_recordedPaths {r : Nat} {S p : List α} :
    p ∈ recordedPaths N T r ∅ S ↔ (∃ s ∈ S, T s ∧ p = [s]) ∨
      ∃ pre s post, S = pre ++ s :: post ∧ ∃ a ∈ runOf N T r ∅ pre s,
        ∃ t ∈ N a.1, T t ∧ p = goOn a t := by
  unfold recordedPaths
  rw [List.mem_flatMap]
  constructor
  · rintro ⟨⟨s, E⟩, hmem, hp⟩
    obtain ⟨pre, post, rfl, rfl⟩ := mem_sweep.mp hmem
    unfold recordedFrom at hp
    split at hp
    · next hT => exact Or.inl ⟨s, by simp, hT, by simpa using hp⟩
    · obtain ⟨a, ha, hp⟩ := List.mem_flatMap.mp hp
      exact Or.inr ⟨pre, s, post, rfl, a, ha, mem_recorded.mp hp⟩
  · rintro (⟨s, hs, hT, rfl⟩ | ⟨pre, s, post, rfl, a, ha, hp⟩)
    · obtain ⟨pre, post, rfl⟩ := List.append_of_mem hs
      exact ⟨_, mem_sweep.mpr ⟨pre, post, rfl, rfl⟩, by simp [recordedFrom, hT]⟩
    · refine ⟨_, mem_sweep.mpr ⟨pre, post, rfl, rfl⟩, ?_⟩
      have hT : ¬ T s := fun hT => by simp [runOf, hT] at ha
      simp only [recordedFrom, hT, if_false]
      exact List.mem_flatMap.mpr ⟨a, ha, mem_recorded.mpr hp⟩

/-- What is found below a source is a simple approach from it, where it touches a target. -/
theorem runOf_approach {r : Nat} {V : Finset α} {pre : List α} {s : α} {a : Approach α}
    (ha : a ∈ runOf N T r V pre s) (ht : Touches N T a.1) : IsApproach N T r s a := by
  unfold runOf at ha
  split at ha
  · simp at ha
  · next hT =>
    have hp := explore_path r _ s [] a ha
    have hcl := explore_source_clean r _ s (Finset.mem_insert_self s _) a ha ht
    refine ⟨?_, hp.chain (List.IsChain.singleton s), ?_, by simpa using hp.cap, hcl.nodup⟩
    · obtain ⟨front, hfront⟩ := hp.suffix
      rw [← hfront]
      simp
    · intro x hx
      rcases hp.wall x hx with h | h
      · obtain rfl : x = s := by simpa using h
        exact hT
      · exact h

theorem recordedPaths_corridor {neighbors : α → List α} {sources targets : FrozenSet α}
    {depthCap : Int} (hdepth : 0 ≤ depthCap ∨ ∀ s ∈ sources, s ∉ targets) {p : List α}
    (hp : p ∈ recordedPaths neighbors (· ∈ targets) depthCap.toNat ∅ sources.elems) :
    IsCorridor neighbors sources targets depthCap p := by
  rw [isCorridor_iff]
  rcases mem_recordedPaths.mp hp with
    ⟨s, hs, hT, rfl⟩ | ⟨pre, s, post, hS, a, ha, t, ht, hT, rfl⟩
  · exact Or.inl ⟨s, hs, hT, hdepth.resolve_right fun h => h s hs hT, rfl⟩
  · refine Or.inr ⟨s, ?_, a, runOf_approach ha ⟨t, ht, hT⟩, t, ht, hT, rfl⟩
    rw [← FrozenSet.mem_elems, hS]
    simp

/-- `_enumerate_simple_paths` ends, returns corridors only, and at most `hard_cap` of them. -/
theorem enumerateSimplePaths_sound (neighbors : α → List α) (sources targets : FrozenSet α)
    (depthCap hardCap : Int) (hdepth : 0 ≤ depthCap) (hhard : 1 ≤ hardCap) :
    (∀ st, Yields (Query.turn ⟨neighbors, targets, depthCap, hardCap⟩) st
      (Query.whileStack ⟨neighbors, targets, depthCap, hardCap⟩ st)) ∧
    (∀ p ∈ enumerateSimplePaths neighbors sources targets depthCap hardCap,
      IsCorridor neighbors sources targets depthCap p) ∧
    ((enumerateSimplePaths neighbors sources targets depthCap hardCap).length : Int) ≤
      hardCap := by
  refine ⟨fun st => yields_runTotal _ _ _ st, fun p hp => ?_, ?_⟩
  · rw [enumerateSimplePaths_eq _ _ _ _ _ hhard] at hp
    exact recordedPaths_corridor (Or.inl hdepth) (List.mem_of_mem_take hp)
  · rw [enumerateSimplePaths_eq _ _ _ _ _ hhard, List.length_take]
    omega

/-- Four cells in a square, and a fifth behind the corner opposite to the first. -/
def squareItems : List (Cell × List Cell) :=
  [(⟨0, 0, 0⟩, [⟨1, 0, 0⟩, ⟨0, 0, 1⟩]),
    (⟨1, 0, 0⟩, [⟨0, 0, 0⟩, ⟨1, 0, 1⟩]),
    (⟨0, 0, 1⟩, [⟨0, 0, 0⟩, ⟨1, 0, 1⟩]),
    (⟨1, 0, 1⟩, [⟨1, 0, 0⟩, ⟨0, 0, 1⟩, ⟨2, 0, 1⟩]),
    (⟨2, 0, 1⟩, [⟨1, 0, 1⟩])]

def squareStart : FrozenSet Cell := ⟨[⟨0, 0, 0⟩], by decide⟩

def squareGoal : FrozenSet Cell := ⟨[⟨2, 0, 1⟩], by decide⟩

theorem enumerateSimplePaths_sound_square :
    (∀ st, Yields (Query.turn ⟨neighborsOf squareItems, squareGoal, 10, 10000⟩) st
      (Query.whileStack ⟨neighborsOf squareItems, squareGoal, 10, 10000⟩ st)) ∧
    (∀ p ∈ enumerateSimplePaths (neighborsOf squareItems) squareStart squareGoal 10 10000,
      IsCorridor (neighborsOf squareItems) squareStart squareGoal 10 p) ∧
    ((enumerateSimplePaths (neighborsOf squareItems) squareStart squareGoal 10 10000).length :
      Int) ≤ 10000 :=
  enumerateSimplePaths_sound (neighborsOf squareItems) squareStart squareGoal 10 10000
    (by decide) (by decide)

end TraxMania.Corridor
