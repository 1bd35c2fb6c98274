import TraxMania.Corridor.MapReads

/-
  The search finds a path whenever a target is near enough to a source.

  It may come to a cell on a long way first and mark it too deep. But as long as no path is found,
  every mark is taken back when its cell is searched, and nothing escapes from a searched cell
  (`explore_dead`). So after a search that found nothing there is no mark left, and no way either.
-/

namespace TraxMania.Corridor

open TraxMania.Grid Lib.OpenWalk

variable {α : Type*}

/-- `t` is at most `n` steps from `s`. -/
def Within (neighbors : α → List α) (n : Int) (s t : α) : Prop :=
  ∃ p : List α, p.head? = some s ∧ p.getLast? = some t ∧
    p.IsChain (fun x y => y ∈ neighbors x) ∧ (p.length : Int) - 1 ≤ n

/-- Some target is at most `n` steps from some source. -/
def SomeWithin (neighbors : α → List α) (n : Int) (sources targets : FrozenSet α) : Prop :=
  ∃ s ∈ sources, ∃ t ∈ targets, Within neighbors n s t

variable [DecidableEq α] {N : α → List α} {T : α → Prop} [DecidablePred T]

/-! ## A walk to a target escapes -/

omit [DecidableEq α] [DecidablePred T] in
/-- A walk is followed to the first target on it: the cell before that one touches it. -/
theorem escapes_of_walk {p : List α} {n : Nat} {s t : α}
    (hchain : (s :: p).IsChain fun x y => y ∈ N x) (hlast : (s :: p).getLast? = some t)
    (hT : T t) (hs : ¬ T s) (hn : p.length ≤ n + 1) : Escapes N T ∅ n s := by
  induction p generalizing s n with
  | nil =>
    obtain rfl : s = t := Option.some.inj hlast
    exact absurd hT hs
  | cons y p ih =>
    obtain ⟨hy, hrest⟩ := List.isChain_cons_cons.mp hchain
    by_cases hyT : T y
    · exact opens_of_goal n (Finset.notMem_empty s) ⟨y, hy, hyT⟩
    · have hlast' : (y :: p).getLast? = some t := by
        rw [← hlast, List.getLast?_cons_cons]
      have hp : p ≠ [] := by
        rintro rfl
        obtain rfl : y = t := Option.some.inj hlast'
        exact hyT hT
      have hpos := List.length_pos_of_ne_nil hp
      rw [List.length_cons] at hn
      obtain ⟨m, rfl⟩ : ∃ m, n = m + 1 := ⟨n - 1, by omega⟩
      exact opens_of_step (Finset.notMem_empty s) hy hyT
        (ih hrest hlast' hyT (by omega))

/-! ## A search without a result -/

omit [DecidableEq α] in
/-- Where nothing is recorded, no expanded cell touches a target. -/
theorem not_touches_of_recorded_nil {E : List (Approach α)} (h : E.flatMap (recorded N T) = []) :
    ∀ q ∈ E, ¬ Touches N T q.1 := by
  rintro q hq ⟨t, ht, hT⟩
  have hnil := List.flatMap_eq_nil_iff.mp h q hq
  unfold recorded at hnil
  rw [List.map_eq_nil_iff, List.filter_eq_nil_iff] at hnil
  exact hnil t ht (decide_eq_true hT)

/-- A search that records nothing leaves no mark and nothing to escape. -/
theorem explore_recorded_nil {r : Nat} {s : α}
    (h : (explore N T r (insert s ∅) s []).2.flatMap (recorded N T) = []) :
    (explore N T r (insert s ∅) s []).1 = ∅ ∧ ∀ n < r, ¬ Escapes N T ∅ n s := by
  have hmem : s ∈ insert s (∅ : Finset α) := Finset.mem_insert_self s ∅
  have htouch := not_touches_of_recorded_nil h
  have hmarks := explore_marks (N := N) (T := T) r (insert s ∅) s [] hmem
  have hnone : (explore N T r (insert s ∅) s []).1 = ∅ := by
    rw [Finset.eq_empty_iff_forall_notMem]
    intro x hx
    by_cases hxs : x = s
    · subst hxs
      obtain ⟨hr, ht⟩ := hmarks.self.mp hx
      exact htouch _ (explore_head hr (insert x ∅) x []) ht
    · have hfresh : x ∉ insert s (∅ : Finset α) := by simpa using hxs
      obtain ⟨ht, q, hq, rfl⟩ := hmarks.fresh x hx hfresh
      exact htouch q hq ht
  refine ⟨hnone, fun n hn hescapes => ?_⟩
  obtain ⟨m, rfl⟩ : ∃ m, r = m + 1 := ⟨r - 1, by omega⟩
  have hdead := explore_dead (N := N) (T := T) m (insert s ∅) s [] hmem
  rw [hnone] at hdead
  exact hdead (opens_mono (by omega) hescapes)

/-- One source after the other, none of them with a result. -/
theorem recordedPaths_eq_nil {r : Nat} {S : List α} (h : recordedPaths N T r ∅ S = []) :
    ∀ s ∈ S, ¬ T s ∧ ∀ n < r, ¬ Escapes N T ∅ n s := by
  induction S with
  | nil => exact fun s hs => absurd hs List.not_mem_nil
  | cons s S ih =>
    by_cases hs : T s
    · rw [Query.recordedPaths_cons_target hs] at h
      cases h
    · rw [Query.recordedPaths_cons_search hs] at h
      obtain ⟨hhere, hrest⟩ := List.append_eq_nil_iff.mp h
      obtain ⟨hnone, hdead⟩ := explore_recorded_nil hhere
      rw [hnone, Finset.erase_empty] at hrest
      intro x hx
      rcases List.mem_cons.mp hx with rfl | hx
      · exact ⟨hs, hdead⟩
      · exact ih hrest x hx

/-! ## The enumerator -/

variable {neighbors : α → List α} {sources targets : FrozenSet α}

omit [DecidableEq α] in
theorem someWithin_of_corridor {depthCap : Int} {p : List α}
    (h : IsCorridor neighbors sources targets depthCap p) :
    SomeWithin neighbors depthCap sources targets := by
  obtain ⟨s, hs, hhead⟩ := h.starts
  obtain ⟨t, ht, hlast⟩ := h.ends
  exact ⟨s, hs, t, ht, p, hhead, hlast, h.steps, h.short⟩

theorem recordedPaths_ne_nil {depthCap : Int} (hdepth : 0 ≤ depthCap)
    (h : SomeWithin neighbors depthCap sources targets) :
    recordedPaths neighbors (· ∈ targets) depthCap.toNat ∅ sources.elems ≠ [] := by
  intro hnil
  obtain ⟨s, hs, t, ht, p, hhead, hlast, hchain, hshort⟩ := h
  obtain ⟨rest, rfl⟩ := List.head?_eq_some_iff.mp hhead
  obtain ⟨hsT, hdead⟩ := recordedPaths_eq_nil hnil s (FrozenSet.mem_elems.mpr hs)
  rw [List.length_cons] at hshort
  cases rest with
  | nil =>
    obtain rfl : s = t := Option.some.inj hlast
    exact hsT ht
  | cons y rest =>
    rw [List.length_cons] at hshort
    have hescapes := escapes_of_walk (n := rest.length) hchain hlast ht hsT le_rfl
    exact hdead rest.length (by omega) hescapes

theorem enumerateSimplePaths_ne_nil_iff {depthCap hardCap : Int} (hdepth : 0 ≤ depthCap)
    (hhard : 1 ≤ hardCap) :
    enumerateSimplePaths neighbors sources targets depthCap hardCap ≠ [] ↔
      SomeWithin neighbors depthCap sources targets := by
  rw [enumerateSimplePaths_eq _ _ _ _ _ hhard]
  constructor
  · intro hne
    obtain ⟨p, hp⟩ := List.exists_mem_of_ne_nil _ hne
    exact someWithin_of_corridor
      (recordedPaths_corridor (Or.inl hdepth) (List.mem_of_mem_take hp))
  · intro hwithin hnil
    rcases List.take_eq_nil_iff.mp hnil with hcap | hnone
    · omega
    · exact recordedPaths_ne_nil hdepth hwithin hnone

/-- The enumerator returns a path if and only if some target is within the depth cap of some source;
    an interval has no path if and only if none is. -/
theorem paths_found_iff_within (neighbors : α → List α) (sources targets : FrozenSet α)
    (depthCap hardCap : Int) (hdepth : 0 ≤ depthCap) (hhard : 1 ≤ hardCap) :
    (enumerateSimplePaths neighbors sources targets depthCap hardCap ≠ [] ↔
      SomeWithin neighbors depthCap sources targets) ∧
    ∀ (order : SetOrder) (combined : Cell → List Cell) (mapId : Int) (plan : IntervalPlan),
      (enumeratePlan order combined depthCap mapId plan).paths.length = 0 ↔
        ¬ ∃ s ∈ plan.sources, ∃ t ∈ plan.targets, Within combined depthCap s t := by
  refine ⟨enumerateSimplePaths_ne_nil_iff hdepth hhard, ?_⟩
  intro order combined mapId plan
  have hfound : enumerateSimplePaths combined (order.order plan.sources)
      (order.order plan.targets) depthCap p95PathCountCap ≠ [] ↔
        SomeWithin combined depthCap (order.order plan.sources) (order.order plan.targets) :=
    enumerateSimplePaths_ne_nil_iff hdepth (by decide)
  unfold SomeWithin at hfound
  simp only [order.mem_order] at hfound
  rw [← hfound, not_not, List.length_eq_zero_iff]
  rfl

theorem paths_found_iff_within_square :
    (enumerateSimplePaths (neighborsOf squareItems) squareStart squareGoal 10 10000 ≠ [] ↔
      SomeWithin (neighborsOf squareItems) 10 squareStart squareGoal) ∧
    ∀ (order : SetOrder) (combined : Cell → List Cell) (mapId : Int) (plan : IntervalPlan),
      (enumeratePlan order combined 10 mapId plan).paths.length = 0 ↔
        ¬ ∃ s ∈ plan.sources, ∃ t ∈ plan.targets, Within combined 10 s t :=
  paths_found_iff_within (neighborsOf squareItems) squareStart squareGoal 10 10000 (by decide)
    (by decide)

end TraxMania.Corridor
