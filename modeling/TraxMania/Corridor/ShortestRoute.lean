import TraxMania.Corridor.Ranking
import Mathlib.Data.Set.Finite.Lattice
import Mathlib.Data.Set.Finite.Lemmas

/-
  When the rank-0 corridor is the shortest route. The search loses the shortest route when it
  comes to the route's last cell before the target on another way first. Whether it does depends
  on the order in which the neighbours are listed and the sources are iterated; it never does
  exactly when there is no other way without a shortcut (`rankZero_shortest_iff`).

  The order of the neighbours decides which way the search goes first: the neighbour listed last
  is popped first. `steer N f` lists the next cell of the path `f` last, and then the search goes
  along `f` before anything else, as long as `f` has no shortcut (`explore_straight`).
-/

namespace TraxMania.Corridor

open TraxMania.Grid Lib.SortBy

section

variable {α : Type*}

/-- Each cell lists the next one last. -/
def LastNext (N : α → List α) (f : List α) : Prop :=
  f.IsChain fun x y => ∃ front, N x = front ++ [y] ∧ y ∉ front

theorem clean_append_singleton {N : α → List α} {p : List α} {c : α} (h : Clean N (p ++ [c])) :
    c ∉ p ∧ (∀ x ∈ p.dropLast, x ∉ N c) ∧ Clean N p := by
  induction p with
  | nil => simp [Clean]
  | cons x p ih =>
    obtain ⟨hx, hback, hrest⟩ := h
    obtain ⟨hc, hdrop, hp⟩ := ih hrest
    have hxc : c ≠ x := fun e => hx (by simp [e])
    refine ⟨by simp [hxc, hc], ?_, fun hm => hx (by simp [hm]), fun a ha => ?_, hp⟩
    · cases p with
      | nil => simp
      | cons y p =>
        intro z hz
        rw [List.dropLast_cons_cons, List.mem_cons] at hz
        rcases hz with rfl | hz
        · exact hback c (by simp)
        · exact hdrop z hz
    · refine hback a ?_
      cases p with
      | nil => simp at ha
      | cons y p => simpa using Or.inl ha

variable [DecidableEq α] {N : α → List α} {T : α → Prop} [DecidablePred T]

theorem pushes_append_fresh {V : Finset α} {front : List α} {k : α} (hV : k ∉ V) (hT : ¬ T k)
    (hk : k ∉ front) : pushes T V (front ++ [k]) = pushes T V front ++ [k] := by
  induction front generalizing V with
  | nil => simp [pushes, hV, hT]
  | cons x front ih =>
    rw [List.mem_cons, not_or] at hk
    rw [List.cons_append]
    unfold pushes
    split
    · exact ih hV hk.2
    · rw [ih (by simp [hk.1, hV]) hk.2, List.cons_append]

/-- A path whose cells are listed last and are unmarked is the first one to be expanded. -/
theorem explore_straight {r : Nat} {V : Finset α} {c : α} {ks : List α} (anc : List α)
    (hr : ks.length < r) (hc : c ∈ V) (hfree : ∀ k ∈ ks, k ∉ V ∧ ¬ T k)
    (hlast : LastNext N (c :: ks)) (hcl : Clean N (c :: ks).reverse) :
    ∃ q ∈ (explore N T r V c anc).2, q.1 :: q.2 = (c :: ks).reverse ++ anc := by
  induction ks generalizing r V c anc with
  | nil => exact ⟨(c, anc), explore_head hr V c anc, by simp⟩
  | cons k ks ih =>
    obtain ⟨r, rfl⟩ : ∃ m, r = m + 1 := ⟨r - 1, by simp at hr; omega⟩
    obtain ⟨⟨front, hN, hfront⟩, hlast'⟩ := List.isChain_cons_cons.mp hlast
    rw [List.reverse_cons] at hcl
    obtain ⟨hcks, hchord, hcl'⟩ := clean_append_singleton hcl
    have hkfree := hfree k (by simp)
    have horder : order N T V c = k :: (pushes T V front).reverse := by
      unfold order
      rw [hN, pushes_append_fresh hkfree.1 hkfree.2 hfront]
      simp
    have hfree' : ∀ x ∈ ks, x ∉ marked N T V c ∧ ¬ T x := by
      intro x hx
      have hxfree := hfree x (by simp [hx])
      refine ⟨fun hm => ?_, hxfree.2⟩
      rcases (mem_marked hc).mp hm with hm | hm
      · exact hxfree.1 hm.1
      · refine hchord x ?_ (mem_order.mp hm).1
        simpa using hx
    obtain ⟨q, hq, hqe⟩ := ih (r := r) (c :: anc) (by simp at hr; omega)
      (order_mem_marked hc k (by simp [horder])) hfree' hlast' hcl'
    refine ⟨q, ?_, by rw [hqe]; simp⟩
    rw [explore_succ, horder, exploreKids_cons]
    exact List.mem_cons_of_mem _ (List.mem_append_left _ hq)

/-! ## Steering -/

/-- The neighbours in an order that makes the search follow the path. -/
def steer (N : α → List α) : List α → α → List α
  | x :: y :: rest, c =>
    if c = x then (N x).filter (fun z => decide (z ≠ y)) ++ [y] else steer N (y :: rest) c
  | _, c => N c

theorem mem_steer {f : List α} (hf : f.IsChain fun x y => y ∈ N x) (c z : α) :
    z ∈ steer N f c ↔ z ∈ N c := by
  induction f with
  | nil => rfl
  | cons x f ih =>
    cases f with
    | nil => rfl
    | cons y rest =>
      obtain ⟨hxy, hrest⟩ := List.isChain_cons_cons.mp hf
      unfold steer
      split
      · next hcx =>
        subst hcx
        by_cases hzy : z = y
        · simp [hzy, hxy]
        · simp [hzy]
      · exact ih hrest

theorem lastNext_steer {f : List α} (hf : f.Nodup) : LastNext (steer N f) f := by
  induction f with
  | nil => exact List.IsChain.nil
  | cons x f ih =>
    cases f with
    | nil => exact List.IsChain.singleton x
    | cons y rest =>
      have hx := (List.nodup_cons.mp hf).1
      refine List.isChain_cons_cons.mpr ⟨⟨(N x).filter (fun z => decide (z ≠ y)), ?_, ?_⟩, ?_⟩
      · simp [steer]
      · simp
      · refine List.IsChain.imp_of_mem_imp (fun u v hu _ huv => ?_)
          (ih (List.nodup_cons.mp hf).2)
        have hne : u ≠ x := fun e => hx (e ▸ hu)
        rw [steer, if_neg hne]
        exact huv

end

/-! ## Routes -/

variable {α : Type*}

/-- A simple path of at most `depthCap` steps from a source to a target. -/
structure IsRoute (neighbors : α → List α) (sources targets : FrozenSet α) (depthCap : Int)
    (p : List α) : Prop where
  starts : ∃ s ∈ sources, p.head? = some s
  ends : ∃ t ∈ targets, p.getLast? = some t
  steps : p.IsChain fun x y => y ∈ neighbors x
  short : (p.length : Int) - 1 ≤ depthCap
  simple : p.Nodup

theorem IsCorridor.route {neighbors : α → List α} {sources targets : FrozenSet α}
    {depthCap : Int} {p : List α} (h : IsCorridor neighbors sources targets depthCap p) :
    IsRoute neighbors sources targets depthCap p :=
  ⟨h.starts, h.ends, h.steps, h.short, h.simple⟩

/-! ## There are finitely many routes -/

/-- The walks of at most `n` steps from `c`. -/
def walks (N : α → List α) : Nat → α → List (List α)
  | 0, c => [[c]]
  | n + 1, c => [c] :: (N c).flatMap fun y => (walks N n y).map (c :: ·)

theorem mem_walks {N : α → List α} {n : Nat} {c : α} {p : List α}
    (hp : (c :: p).IsChain fun x y => y ∈ N x) (hn : p.length ≤ n) : c :: p ∈ walks N n c := by
  induction p generalizing n c with
  | nil => cases n <;> simp [walks]
  | cons y p ih =>
    obtain ⟨n, rfl⟩ : ∃ m, n = m + 1 := ⟨n - 1, by simp at hn; omega⟩
    obtain ⟨hy, hp⟩ := List.isChain_cons_cons.mp hp
    refine List.mem_cons_of_mem _ (List.mem_flatMap.mpr ⟨y, hy, ?_⟩)
    exact List.mem_map.mpr ⟨y :: p, ih hp (by simpa using hn), rfl⟩

theorem routes_finite (neighbors : α → List α) (sources targets : FrozenSet α) (depthCap : Int) :
    {p | IsRoute neighbors sources targets depthCap p}.Finite := by
  refine (List.finite_toSet (sources.elems.flatMap (walks neighbors depthCap.toNat))).subset ?_
  intro p hp
  obtain ⟨s, hs, hhead⟩ := hp.starts
  obtain ⟨rest, rfl⟩ := List.head?_eq_some_iff.mp hhead
  have hshort := hp.short
  simp only [List.length_cons] at hshort
  exact List.mem_flatMap.mpr ⟨s, hs, mem_walks hp.steps (by omega)⟩

/-! ## The best route -/

section Best

variable [LinearOrder α] {neighbors : α → List α} {sources targets : FrozenSet α}
  {depthCap : Int}

/-- The route with the fewest cells, and the lexicographically least of those. -/
structure IsBest (neighbors : α → List α) (sources targets : FrozenSet α) (depthCap : Int)
    (p : List α) : Prop where
  route : IsRoute neighbors sources targets depthCap p
  fewest : ∀ q, IsRoute neighbors sources targets depthCap q → p.length ≤ q.length
  least : ∀ q, IsRoute neighbors sources targets depthCap q → q.length = p.length → p ≤ q

theorem isBest_iff {p : List α} : IsBest neighbors sources targets depthCap p ↔
    IsRoute neighbors sources targets depthCap p ∧
      ∀ q, IsRoute neighbors sources targets depthCap q → rankKey p ≤ rankKey q := by
  constructor
  · refine fun h => ⟨h.route, fun q hq => rankKey_le.mpr ?_⟩
    rcases lt_or_eq_of_le (h.fewest q hq) with hlt | heq
    · exact Or.inl hlt
    · exact Or.inr ⟨heq, h.least q hq heq.symm⟩
  · rintro ⟨hp, hleast⟩
    refine ⟨hp, fun q hq => ?_, fun q hq he => ?_⟩
    · rcases rankKey_le.mp (hleast q hq) with h | h
      · exact le_of_lt h
      · exact le_of_eq h.1
    · rcases rankKey_le.mp (hleast q hq) with h | h
      · omega
      · exact h.2

theorem exists_isBest {q : List α} (hq : IsRoute neighbors sources targets depthCap q) :
    ∃ p, IsBest neighbors sources targets depthCap p := by
  obtain ⟨p, hp, hleast⟩ := Set.exists_min_image _ rankKey
    (routes_finite neighbors sources targets depthCap) ⟨q, hq⟩
  exact ⟨p, isBest_iff.mpr ⟨hp, hleast⟩⟩

theorem IsBest.unique {p q : List α} (hp : IsBest neighbors sources targets depthCap p)
    (hq : IsBest neighbors sources targets depthCap q) : p = q :=
  rankKey_injective (le_antisymm ((isBest_iff.mp hp).2 q hq.route) ((isBest_iff.mp hq).2 p hp.route))

/-- The best route meets no target on the way: it could stop there. -/
theorem IsBest.corridor {p : List α} (h : IsBest neighbors sources targets depthCap p) :
    IsCorridor neighbors sources targets depthCap p := by
  refine ⟨h.route.starts, h.route.ends, fun x hx hT => ?_, h.route.steps, h.route.short,
    h.route.simple⟩
  obtain ⟨t, -, hlast⟩ := h.route.ends
  obtain ⟨init, rfl⟩ := List.getLast?_eq_some_iff.mp hlast
  rw [List.dropLast_concat] at hx
  obtain ⟨u, v, rfl⟩ := List.append_of_mem hx
  have hpre : u ++ [x] <+: u ++ x :: v ++ [t] := ⟨v ++ [t], by simp⟩
  have hlen : (u ++ [x]).length < (u ++ x :: v ++ [t]).length := by simp
  have hstart : (u ++ [x]).head? = (u ++ x :: v ++ [t]).head? := by cases u <;> simp
  have hroute : IsRoute neighbors sources targets depthCap (u ++ [x]) :=
    ⟨hstart ▸ h.route.starts, ⟨x, hT, by simp⟩, h.route.steps.prefix hpre,
      by have := h.route.short; omega, h.route.simple.sublist hpre.sublist⟩
  have := h.fewest _ hroute
  omega

omit [LinearOrder α] in
theorem goOn_length (a : Approach α) (t : α) : (goOn a t).length = a.2.length + 2 := by
  simp [goOn]

variable {a : Approach α} {t : α}

/-- The way to the last cell before the target is the shortest of all to cells that touch one. -/
theorem IsBest.approach_le (h : IsBest neighbors sources targets depthCap (goOn a t)) {s : α}
    (hs : s ∈ sources) {a' : Approach α}
    (ha' : IsApproach neighbors (· ∈ targets) depthCap.toNat s a')
    (ht : Touches neighbors (· ∈ targets) a'.1) : a.2.length ≤ a'.2.length := by
  obtain ⟨t', ht', hT'⟩ := ht
  have hle := h.fewest _ (isCorridor_goOn hs ha' ht' hT').route
  rw [goOn_length, goOn_length] at hle
  omega

theorem IsBest.not_source (h : IsBest neighbors sources targets depthCap (goOn a t)) {s : α}
    (ha : IsApproach neighbors (· ∈ targets) depthCap.toNat s a)
    (ht : Touches neighbors (· ∈ targets) a.1) (hlen : a.2 ≠ []) : a.1 ∉ sources := by
  intro hs
  have hcap := ha.cap
  have hself : IsApproach neighbors (· ∈ targets) depthCap.toNat a.1 (a.1, []) :=
    ⟨rfl, List.IsChain.singleton _, by simpa using ha.wall a.1 (by simp), by
      show 0 < depthCap.toNat
      omega, List.nodup_singleton _⟩
  have hle := h.approach_le hs hself ht
  exact hlen (List.eq_nil_of_length_eq_zero (Nat.le_zero.mp hle))

/-! ## The best route is found when there is no other way -/

/-- Beyond two cells, the best route is the only way without a shortcut to its last cell before
    the target. -/
def SoleWay (neighbors : α → List α) (sources targets : FrozenSet α) (depthCap : Int) : Prop :=
  ∀ p, IsBest neighbors sources targets depthCap p → p.length ≤ 2 ∨
    ∀ s ∈ sources, ∀ a, IsApproach neighbors (· ∈ targets) depthCap.toNat s a →
      Clean neighbors (a.1 :: a.2) → p.dropLast.getLast? = some a.1 →
      p.dropLast = (a.1 :: a.2).reverse

omit [LinearOrder α] in
theorem dropLast_goOn (a : Approach α) (t : α) : (goOn a t).dropLast = (a.1 :: a.2).reverse := by
  simp [goOn]

omit [LinearOrder α] in
theorem FoundFrom.clean [DecidableEq α] {N : α → List α} {T : α → Prop} [DecidablePred T] {r : Nat}
    {S : List α} {s : α} {a : Approach α} (h : FoundFrom N T r S s a) (ht : Touches N T a.1) :
    Clean N (a.1 :: a.2) := by
  obtain ⟨pre, post, -, ha⟩ := h
  unfold runOf at ha
  split at ha
  · simp at ha
  · exact explore_source_clean r _ s (Finset.mem_insert_self s _) a ha ht

/-- What is found at the last cell of the best route is the best route itself. -/
theorem SoleWay.found_eq (h : SoleWay neighbors sources targets depthCap)
    (hbest : IsBest neighbors sources targets depthCap (goOn a t)) {s s' : α}
    (hs : s ∈ sources) (ha : IsApproach neighbors (· ∈ targets) depthCap.toNat s a)
    {p : Approach α} (hp : FoundFrom neighbors (· ∈ targets) depthCap.toNat sources.elems s' p)
    (hcell : p.1 = a.1) (ht : Touches neighbors (· ∈ targets) a.1)
    (hturn : turnOf sources.elems s' a.1 = turnOf sources.elems s a.1) : p = a := by
  obtain ⟨hs', hpa⟩ := hp.approach (hcell ▸ ht)
  rcases h _ hbest with hlen | honly
  · -- the best route is one step: `p` starts where it ends
    rw [goOn_length] at hlen
    obtain ⟨c, anc⟩ := a
    obtain rfl : anc = [] := List.eq_nil_of_length_eq_zero (by simpa using hlen)
    obtain rfl : c = s := by simpa using ha.start
    obtain ⟨pc, panc⟩ := p
    obtain rfl : pc = c := hcell
    unfold turnOf at hturn
    rw [Nat.compare_eq_eq.mpr rfl] at hturn
    obtain rfl : s' = pc := (List.idxOf_inj hs').mp (Nat.compare_eq_eq.mp hturn)
    cases panc with
    | nil => rfl
    | cons x panc =>
      have hlast := hpa.start
      rw [List.getLast?_cons_cons] at hlast
      exact absurd (List.mem_of_mem_getLast? hlast) (List.nodup_cons.mp hpa.simple).1
  · have heq := honly s' hs' p hpa (hp.clean (hcell ▸ ht)) (by
      rw [dropLast_goOn, List.getLast?_reverse, List.head?_cons, hcell])
    rw [dropLast_goOn] at heq
    have hcons := List.reverse_injective heq
    exact Prod.ext (List.cons.inj hcons).1.symm (List.cons.inj hcons).2.symm

theorem SoleWay.best_recorded (h : SoleWay neighbors sources targets depthCap) {p : List α}
    (hbest : IsBest neighbors sources targets depthCap p) :
    p ∈ recordedPaths neighbors (· ∈ targets) depthCap.toNat ∅ sources.elems := by
  rcases isCorridor_iff.mp hbest.corridor with ⟨s, hs, hT, -, rfl⟩ | ⟨s, hs, a, ha, t, ht, hT, rfl⟩
  · exact mem_recordedPaths.mpr (Or.inl ⟨s, hs, hT, rfl⟩)
  · obtain ⟨pre, post, hS⟩ := List.append_of_mem (FrozenSet.mem_elems.mpr hs)
    refine (goOn_mem_recordedPaths ha ht hT).mpr ⟨pre, post, hS,
      found_of_not_hidden sources.nodup hS ha ?_ ?_⟩
    · intro front y z u b v hfront hyb
      obtain ⟨a', ha', hcell, hlen⟩ := ha.shortcut hfront hyb
      have hle := hbest.approach_le hs ha' (hcell ▸ ⟨t, ht, hT⟩)
      omega
    · -- only the last cell of the best route touches a target
      intro y anc hy hty s' p hp hpy hturn
      have hle := hbest.approach_le hs (ha.cut hy) hty
      have hlen := hy.length_le
      simp only [List.length_cons] at hlen
      have hya := hy.eq_of_length_le (by simp only [List.length_cons]; exact Nat.succ_le_succ hle)
      obtain ⟨rfl, rfl⟩ := List.cons.inj hya
      exact h.found_eq hbest hs ha hp hpy hty hturn

/-- The first ranked path is the best route, whenever there is a route. -/
def RankZeroBest (neighbors : α → List α) (sources targets : FrozenSet α)
    (depthCap hardCap : Int) : Prop :=
  ∀ p, (rankPaths (enumerateSimplePaths neighbors sources targets depthCap hardCap)).head? =
    some p ↔ IsBest neighbors sources targets depthCap p

/-- A one-cell path is a route only where the depth cap allows no step at least. -/
def CapFits (sources targets : FrozenSet α) (depthCap : Int) : Prop :=
  0 ≤ depthCap ∨ ∀ s ∈ sources, s ∉ targets

theorem rankZeroBest_iff {hardCap : Int} (hfits : CapFits sources targets depthCap)
    (hlt : ((enumerateSimplePaths neighbors sources targets depthCap hardCap).length : Int) <
      hardCap) :
    RankZeroBest neighbors sources targets depthCap hardCap ↔
      ∀ p, IsBest neighbors sources targets depthCap p →
        p ∈ recordedPaths neighbors (· ∈ targets) depthCap.toNat ∅ sources.elems := by
  unfold RankZeroBest rankPaths
  rw [enumerateSimplePaths_eq_of_lt hlt]
  constructor
  · intro h p hp
    exact (head?_sortBy ((h p).mpr hp)).1
  · intro h p
    constructor
    · intro hhead
      obtain ⟨hp, hleast⟩ := head?_sortBy hhead
      have hroute := (recordedPaths_corridor hfits hp).route
      obtain ⟨b, hb⟩ := exists_isBest hroute
      have hpb := le_antisymm (hleast b (h b hb)) ((isBest_iff.mp hb).2 p hroute)
      exact rankKey_injective hpb ▸ hb
    · intro hp
      refine head?_sortBy_eq (h p hp) (fun q hq => ?_) fun q _ he => rankKey_injective he
      exact (isBest_iff.mp hp).2 q (recordedPaths_corridor hfits hq).route

/-- With a cap below zero a source that is a target is returned all the same. -/
theorem capFits_of_rankZeroBest {hardCap : Int}
    (hlt : ((enumerateSimplePaths neighbors sources targets depthCap hardCap).length : Int) <
      hardCap) (h : RankZeroBest neighbors sources targets depthCap hardCap) :
    CapFits sources targets depthCap := by
  by_cases hd : 0 ≤ depthCap
  · exact Or.inl hd
  · refine Or.inr fun s hs hT => ?_
    have hmem : [s] ∈ recordedPaths neighbors (· ∈ targets) depthCap.toNat ∅ sources.elems :=
      mem_recordedPaths.mpr (Or.inl ⟨s, hs, hT, rfl⟩)
    rw [← enumerateSimplePaths_eq_of_lt hlt] at hmem
    have hranked := (mem_sortBy rankKey _ _).mpr hmem
    obtain ⟨p, hp⟩ := Option.isSome_iff_exists.mp
      (List.isSome_head?.mpr (List.ne_nil_of_mem hranked))
    have hroute := ((h p).mp hp).route
    have hshort := hroute.short
    obtain ⟨x, -, hx⟩ := hroute.starts
    have hpos := List.length_pos_of_mem (List.mem_of_mem_head? hx)
    omega

/-! ## Another way can come first -/

theorem not_mem_idxOf {S : List α} {c s s' : α} (hc : c ∉ S) (hs : s ∈ S) (hs' : s' ∈ S) :
    turnOf S s c = turnOf S s' c := by
  have h := List.idxOf_lt_length_of_mem hs
  have h' := List.idxOf_lt_length_of_mem hs'
  have hcS := List.idxOf_eq_length hc
  unfold turnOf
  rw [Nat.compare_eq_lt.mpr (by omega), Nat.compare_eq_lt.mpr (by omega)]

end Best

section Congruence

variable {N N' : α → List α} {S S' targets : FrozenSet α} {depthCap : Int}

theorem IsApproach.congr {T : α → Prop} {r : Nat} {s : α} {a : Approach α}
    (hN : ∀ c y, y ∈ N' c ↔ y ∈ N c) (h : IsApproach N' T r s a) : IsApproach N T r s a :=
  ⟨h.start, h.chain.imp fun _ _ hxy => (hN _ _).mp hxy, h.wall, h.cap, h.simple⟩

theorem Clean.congr {p : List α} (hN : ∀ c y, y ∈ N' c ↔ y ∈ N c) (h : Clean N' p) :
    Clean N p := by
  induction p with
  | nil => trivial
  | cons x p ih => exact ⟨h.1, fun a ha hx => h.2.1 a ha ((hN a x).mpr hx), ih h.2.2⟩

theorem IsRoute.congr {p : List α} (hN : ∀ c y, y ∈ N' c ↔ y ∈ N c) (hS : ∀ c, c ∈ S' ↔ c ∈ S)
    (h : IsRoute N' S' targets depthCap p) : IsRoute N S targets depthCap p :=
  ⟨h.starts.imp fun s hs => ⟨(hS s).mp hs.1, hs.2⟩, h.ends,
    h.steps.imp fun _ _ hxy => (hN _ _).mp hxy, h.short, h.simple⟩

theorem IsBest.congr [LinearOrder α] {p : List α} (hN : ∀ c y, y ∈ N' c ↔ y ∈ N c)
    (hS : ∀ c, c ∈ S' ↔ c ∈ S) (h : IsBest N' S' targets depthCap p) :
    IsBest N S targets depthCap p :=
  ⟨h.route.congr hN hS,
    fun q hq => h.fewest q (hq.congr (fun c y => (hN c y).symm) fun c => (hS c).symm),
    fun q hq => h.least q (hq.congr (fun c y => (hN c y).symm) fun c => (hS c).symm)⟩

theorem SoleWay.congr [LinearOrder α] (hN : ∀ c y, y ∈ N' c ↔ y ∈ N c)
    (hS : ∀ c, c ∈ S' ↔ c ∈ S) (h : SoleWay N' S' targets depthCap) :
    SoleWay N S targets depthCap := by
  have hN' := fun c y => (hN c y).symm
  intro p hp
  refine (h p (hp.congr hN' fun c => (hS c).symm)).imp id fun honly s hs a ha hcl hlast => ?_
  exact honly s ((hS s).mpr hs) a (ha.congr hN') (hcl.congr hN') hlast

end Congruence

section Steered

variable [LinearOrder α] {N : α → List α} {sources targets : FrozenSet α} {depthCap : Int}

/-- The sources with `s` iterated first. -/
def firstSource (sources : FrozenSet α) (s : α) : FrozenSet α where
  elems := s :: sources.elems.erase s
  nodup := List.nodup_cons.mpr ⟨sources.nodup.not_mem_erase, sources.nodup.erase s⟩

theorem mem_firstSource {s c : α} (hs : s ∈ sources) :
    c ∈ firstSource sources s ↔ c ∈ sources := by
  show c ∈ s :: sources.elems.erase s ↔ c ∈ sources.elems
  exact (List.perm_cons_erase hs).symm.mem_iff

/-- Listed so, the search finds the way `q` before any other. -/
theorem steered_found {r : Nat} {T : α → Prop} [DecidablePred T] {s : α} {q : Approach α}
    (hq : IsApproach N T r s q) (hcl : Clean N (q.1 :: q.2)) :
    FoundFrom (steer N (q.1 :: q.2).reverse) T r (firstSource sources s).elems s q := by
  have hchain : ((q.1 :: q.2).reverse).IsChain fun x y => y ∈ N x :=
    List.isChain_reverse.mpr hq.chain
  have hmem := mem_steer hchain
  have hlast := lastNext_steer (N := N) (List.nodup_reverse.mpr hq.simple)
  have hT : ¬ T s := hq.wall s (List.mem_of_mem_getLast? hq.start)
  obtain ⟨ks, hks⟩ : ∃ ks, (q.1 :: q.2).reverse = s :: ks := by
    have h := hq.start
    rw [← List.head?_reverse] at h
    exact List.head?_eq_some_iff.mp h
  have hrev : q.1 :: q.2 = (s :: ks).reverse := by rw [← hks, List.reverse_reverse]
  have hnd : (s :: ks).Nodup := hks ▸ List.nodup_reverse.mpr hq.simple
  have hlen : ks.length < r := by
    have h1 := congrArg List.length hks
    have h2 := hq.cap
    simp only [List.length_reverse, List.length_cons] at h1
    omega
  rw [hks] at hlast hmem ⊢
  refine ⟨[], sources.elems.erase s, rfl, ?_⟩
  unfold runOf
  rw [if_neg hT]
  have hfree : ∀ k ∈ ks, k ∉ insert s (marksAfter (steer N (s :: ks)) T r ∅ []) ∧ ¬ T k := by
    intro k hk
    refine ⟨?_, hq.wall k (by rw [hrev, List.mem_reverse]; exact List.mem_cons_of_mem _ hk)⟩
    have hne : k ≠ s := fun e => (List.nodup_cons.mp hnd).1 (e ▸ hk)
    simp [marksAfter, hne]
  obtain ⟨p, hp, hpe⟩ := explore_straight [] hlen (Finset.mem_insert_self s _) hfree hlast
    (Clean.congr (fun c y => (hmem c y).symm) (hrev ▸ hcl))
  rw [List.append_nil, ← hrev] at hpe
  obtain rfl : p = q := Prod.ext (List.cons.inj hpe).1 (List.cons.inj hpe).2
  exact hp

/-- If the best route is recorded however the graph is listed, there is no other way. -/
theorem soleWay_of_recorded
    (h : ∀ (N' : α → List α) (sources' : FrozenSet α), (∀ c y, y ∈ N' c ↔ y ∈ N c) →
      (∀ c, c ∈ sources' ↔ c ∈ sources) → ∀ p, IsBest N' sources' targets depthCap p →
        p ∈ recordedPaths N' (· ∈ targets) depthCap.toNat ∅ sources'.elems) :
    SoleWay N sources targets depthCap := by
  intro p hbest
  rcases isCorridor_iff.mp hbest.corridor with ⟨s, -, -, -, rfl⟩ | ⟨s, hs, a, ha, t, ht, hT, rfl⟩
  · exact Or.inl (by simp)
  · by_cases hlen : a.2 = []
    · exact Or.inl (by rw [goOn_length, hlen]; simp)
    · refine Or.inr fun s' hs' q hq hcl hlast => ?_
      rw [dropLast_goOn, List.getLast?_reverse, List.head?_cons, Option.some.injEq] at hlast
      have hchain : ((q.1 :: q.2).reverse).IsChain fun x y => y ∈ N x :=
        List.isChain_reverse.mpr hq.chain
      have hN := mem_steer hchain
      have hS : ∀ c, c ∈ firstSource sources s' ↔ c ∈ sources := fun c => mem_firstSource hs'
      have hN' := fun c y => (hN c y).symm
      have hrec := h _ _ hN hS _ (hbest.congr hN' fun c => (hS c).symm)
      have hfound := (goOn_mem_recordedPaths (ha.congr hN') ((hN _ _).mpr ht) hT).mp hrec
      have htouch : Touches (steer N (q.1 :: q.2).reverse) (· ∈ targets) a.1 :=
        ⟨t, (hN _ _).mpr ht, hT⟩
      have hsource : a.1 ∉ (firstSource sources s').elems := fun hc =>
        hbest.not_source ha ⟨t, ht, hT⟩ hlen ((hS _).mp hc)
      have hturn := not_mem_idxOf hsource ((hS s).mpr hs) ((hS s').mpr hs')
      rw [hfound.unique (firstSource sources s').nodup (steered_found hq hcl) hlast htouch hturn]
      exact dropLast_goOn q t

end Steered

/-- The rank-0 corridor is the shortest route, however the same graph is put in (which edges come
    from the seed, in which order the neighbours are listed and the sources are iterated), exactly
    when the shortest route is the only way without a shortcut to its last cell before the
    target. -/
theorem rankZero_shortest_iff [LinearOrder α] (neighborsSeed : α → List α)
    (observationSets : List (FrozenSet α)) (sources targets : FrozenSet α) (depthCap : Int) :
    (∀ (seed' : α → List α) (observationSets' : List (FrozenSet α)) (sources' : FrozenSet α)
      (hardCap : Int),
      (∀ c y, y ∈ (buildEnumerationGraph seed' observationSets').1 c ↔
        y ∈ (buildEnumerationGraph neighborsSeed observationSets).1 c) →
      (∀ c, c ∈ sources' ↔ c ∈ sources) →
      ((enumerateSimplePaths (buildEnumerationGraph seed' observationSets').1 sources' targets
        depthCap hardCap).length : Int) < hardCap →
      RankZeroBest (buildEnumerationGraph seed' observationSets').1 sources' targets depthCap
        hardCap) ↔
    CapFits sources targets depthCap ∧
      SoleWay (buildEnumerationGraph neighborsSeed observationSets).1 sources targets depthCap := by
  constructor
  · intro h
    have hlarge : ∀ (N' : α → List α) (sources' : FrozenSet α), ∃ hardCap : Int,
        ((enumerateSimplePaths N' sources' targets depthCap hardCap).length : Int) < hardCap := by
      intro N' sources'
      refine ⟨(recordedPaths N' (· ∈ targets) depthCap.toNat ∅ sources'.elems).length + 1, ?_⟩
      rw [enumerateSimplePaths_eq _ _ _ _ _ (by omega), List.length_take]
      omega
    obtain ⟨hardCap, hlt⟩ := hlarge (buildEnumerationGraph neighborsSeed observationSets).1 sources
    have hfits := capFits_of_rankZeroBest hlt (h neighborsSeed observationSets sources hardCap
      (fun _ _ => Iff.rfl) (fun _ => Iff.rfl) hlt)
    refine ⟨hfits, soleWay_of_recorded fun N' sources' hN hS => ?_⟩
    obtain ⟨hardCap', hlt'⟩ := hlarge N' sources'
    have hfits' : CapFits sources' targets depthCap :=
      hfits.imp id fun hno s hs => hno s ((hS s).mp hs)
    -- without observations the graph is the seed
    exact (rankZeroBest_iff hfits' hlt').mp (h N' [] sources' hardCap' hN hS hlt')
  · rintro ⟨hfits, hsole⟩ seed' observationSets' sources' hardCap hN hS hlt
    have hfits' : CapFits sources' targets depthCap :=
      hfits.imp id fun hno s hs => hno s ((hS s).mp hs)
    refine (rankZeroBest_iff hfits' hlt).mpr fun p hp => ?_
    exact (hsole.congr (fun c y => (hN c y).symm) fun c => (hS c).symm).best_recorded hp

/-- Eight cells round a hole, and a ninth behind the corner `(2, 0, 0)`. -/
def ringItems : List (Cell × List Cell) :=
  [(⟨0, 0, 0⟩, [⟨1, 0, 0⟩, ⟨0, 0, 1⟩]),
    (⟨1, 0, 0⟩, [⟨0, 0, 0⟩, ⟨2, 0, 0⟩]),
    (⟨2, 0, 0⟩, [⟨1, 0, 0⟩, ⟨3, 0, 0⟩, ⟨2, 0, 1⟩]),
    (⟨3, 0, 0⟩, [⟨2, 0, 0⟩]),
    (⟨2, 0, 1⟩, [⟨2, 0, 0⟩, ⟨2, 0, 2⟩]),
    (⟨2, 0, 2⟩, [⟨2, 0, 1⟩, ⟨1, 0, 2⟩]),
    (⟨1, 0, 2⟩, [⟨2, 0, 2⟩, ⟨0, 0, 2⟩]),
    (⟨0, 0, 2⟩, [⟨1, 0, 2⟩, ⟨0, 0, 1⟩]),
    (⟨0, 0, 1⟩, [⟨0, 0, 0⟩, ⟨0, 0, 2⟩])]

theorem ringStart_nodup : [(⟨0, 0, 0⟩ : Cell)].Nodup := by decide

def ringStart : FrozenSet Cell := ⟨[⟨0, 0, 0⟩], ringStart_nodup⟩

def ringGoal : FrozenSet Cell := ⟨[⟨3, 0, 0⟩], by decide⟩

/-- Round the ring the search goes the long way first, and the short way is lost. -/
theorem rankZero_ring_not_shortest :
    ((enumerateSimplePaths (buildEnumerationGraph (neighborsOf ringItems) []).1 ringStart ringGoal
      10 10000).length : Int) < 10000 ∧
    ¬ RankZeroBest (buildEnumerationGraph (neighborsOf ringItems) []).1 ringStart ringGoal 10
      10000 := by
  refine ⟨by decide +kernel, fun h => ?_⟩
  have hbest := (h [⟨0, 0, 0⟩, ⟨0, 0, 1⟩, ⟨0, 0, 2⟩, ⟨1, 0, 2⟩, ⟨2, 0, 2⟩, ⟨2, 0, 1⟩, ⟨2, 0, 0⟩,
    ⟨3, 0, 0⟩]).mp (by decide +kernel)
  have hshort : IsRoute (buildEnumerationGraph (neighborsOf ringItems) []).1 ringStart ringGoal 10
      [⟨0, 0, 0⟩, ⟨1, 0, 0⟩, ⟨2, 0, 0⟩, ⟨3, 0, 0⟩] := by
    refine ⟨⟨⟨0, 0, 0⟩, by decide, rfl⟩, ⟨⟨3, 0, 0⟩, by decide, rfl⟩, ?_, ?_, ?_⟩ <;> decide
  have hle := hbest.fewest _ hshort
  revert hle
  decide

end TraxMania.Corridor
