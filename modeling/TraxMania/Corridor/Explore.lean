import Mathlib.Data.Finset.Basic
import Mathlib.Data.List.Chain
import Mathlib.Data.List.Infix

/-
  What the marked search does below one stack entry, as a recursion on the steps left to the
  depth cap. `explore r V c anc` expands the cell `c`, reached along `(c :: anc).reverse` with the
  cells of `V` marked, and everything pushed from it; it returns the marks afterwards and the
  approaches expanded, in order. An approach is a cell with the path behind it, newest first.

  Only cells that touch a target keep their mark once they are expanded. So an approach to such a
  cell is found at most once (`explore_pairwise`), and what hides an approach is a cell that is
  behind it, a pushed neighbour of a cell behind it, or an earlier approach (`explore_closed`).
-/

namespace TraxMania.Corridor

variable {α : Type*}

/-- A cell and the path behind it, newest cell first. -/
abbrev Approach (α : Type*) := α × List α

/-- `c` has a target among its neighbours. -/
def Touches (N : α → List α) (T : α → Prop) (c : α) : Prop := ∃ t ∈ N c, T t

/-- No two approaches end in the same cell that touches a target. -/
def Distinct (N : α → List α) (T : α → Prop) (E : List (Approach α)) : Prop :=
  E.Pairwise fun p q => Touches N T p.1 → p.1 ≠ q.1

/-- `y`, a neighbour of the cell of `q`, is behind `q`, was pushed by a cell behind it, or
    touches a target and was seen before. -/
def Hidden (N : α → List α) (T : α → Prop) (seen : α → Prop) (q : Approach α) (y : α) : Prop :=
  y ∈ q.1 :: q.2 ∨ (∃ a ∈ q.2, y ∈ N a) ∨ (Touches N T y ∧ seen y)

theorem Hidden.mono {seen seen' : α → Prop} {q : Approach α} {y : α}
    (h : Hidden N T seen q y) (hs : seen y → seen' y) : Hidden N T seen' q y := by
  rcases h with h | h | ⟨ht, h⟩
  · exact Or.inl h
  · exact Or.inr (Or.inl h)
  · exact Or.inr (Or.inr ⟨ht, hs h⟩)

/-- A reason to be marked at `c` is a reason at each cell pushed from `c`. -/
theorem Hidden.push {seen : α → Prop} {c k y : α} {anc : List α}
    (h : Hidden N T seen (c, anc) y) : Hidden N T seen (k, c :: anc) y := by
  rcases h with h | ⟨a, ha, hy⟩ | h
  · exact Or.inl (List.mem_cons_of_mem _ h)
  · exact Or.inr (Or.inl ⟨a, List.mem_cons_of_mem _ ha, hy⟩)
  · exact Or.inr (Or.inr h)

variable [DecidableEq α]

/-- The cells a scan of `nbs` pushes when `V` is marked, in the order of the scan. -/
def pushes (T : α → Prop) [DecidablePred T] (V : Finset α) : List α → List α
  | [] => []
  | nb :: nbs =>
    if nb ∈ V ∨ T nb then pushes T V nbs else nb :: pushes T (insert nb V) nbs

theorem mem_pushes {T : α → Prop} [DecidablePred T] {V : Finset α} {nbs : List α} {k : α} :
    k ∈ pushes T V nbs ↔ k ∈ nbs ∧ k ∉ V ∧ ¬ T k := by
  induction nbs generalizing V with
  | nil => simp [pushes]
  | cons nb nbs ih =>
    by_cases h : nb ∈ V ∨ T nb
    · rw [pushes, if_pos h, ih, List.mem_cons]
      constructor
      · rintro ⟨h1, h2⟩; exact ⟨Or.inr h1, h2⟩
      · rintro ⟨rfl | h1, h2, h3⟩
        · exact absurd h (by tauto)
        · exact ⟨h1, h2, h3⟩
    · rw [pushes, if_neg h, List.mem_cons, ih, List.mem_cons, Finset.mem_insert]
      push Not at h
      by_cases hk : k = nb
      · subst hk; simp [h]
      · simp [hk]

theorem nodup_pushes {T : α → Prop} [DecidablePred T] (V : Finset α) (nbs : List α) :
    (pushes T V nbs).Nodup := by
  induction nbs generalizing V with
  | nil => simp [pushes]
  | cons nb nbs ih =>
    unfold pushes
    split
    · exact ih V
    · rw [List.nodup_cons, mem_pushes]
      exact ⟨by simp, ih _⟩

section Search

variable (N : α → List α) (T : α → Prop) [DecidablePred T]

instance : DecidablePred (Touches N T) := fun c => inferInstanceAs (Decidable (∃ t ∈ N c, T t))

/-- The cells pushed from `c`, in the order in which the stack gives them back. -/
def order (V : Finset α) (c : α) : List α := (pushes T V (N c)).reverse

/-- The marks after the scan of `c` and its backtrack test. -/
def marked (V : Finset α) (c : α) : Finset α :=
  if Touches N T c then V ∪ (order N T V c).toFinset
  else (V ∪ (order N T V c).toFinset).erase c

/-- Run `f` on each cell in turn, carrying the marks. -/
def exploreAll (f : Finset α → α → Finset α × List (Approach α)) :
    Finset α → List α → Finset α × List (Approach α)
  | V, [] => (V, [])
  | V, k :: ks =>
    ((exploreAll f (f V k).1 ks).1, (f V k).2 ++ (exploreAll f (f V k).1 ks).2)

/-- Everything the search does below the entry for `c`, `r` steps from the depth cap. -/
def explore : Nat → Finset α → α → List α → Finset α × List (Approach α)
  | 0, V, c, _ => (V.erase c, [])
  | r + 1, V, c, anc =>
    ((exploreAll (fun W k => explore r W k (c :: anc)) (marked N T V c) (order N T V c)).1,
      (c, anc) ::
        (exploreAll (fun W k => explore r W k (c :: anc)) (marked N T V c) (order N T V c)).2)

/-- The search below the cells pushed from `c`. -/
def exploreKids (r : Nat) (c : α) (anc : List α) (W : Finset α) (ks : List α) :
    Finset α × List (Approach α) :=
  exploreAll (fun W k => explore N T r W k (c :: anc)) W ks

variable {N T}

theorem mem_order {V : Finset α} {c k : α} : k ∈ order N T V c ↔ k ∈ N c ∧ k ∉ V ∧ ¬ T k := by
  rw [order, List.mem_reverse, mem_pushes]

theorem nodup_order (V : Finset α) (c : α) : (order N T V c).Nodup :=
  List.nodup_reverse.mpr (nodup_pushes V (N c))

theorem mem_marked {V : Finset α} {c x : α} (hc : c ∈ V) :
    x ∈ marked N T V c ↔ (x ∈ V ∧ (x = c → Touches N T c)) ∨ x ∈ order N T V c := by
  have hco : c ∉ order N T V c := fun h => (mem_order.mp h).2.1 hc
  unfold marked
  split
  · next ht => simp [ht]
  · next ht =>
    rw [Finset.mem_erase, Finset.mem_union, List.mem_toFinset]
    constructor
    · rintro ⟨hx, h | h⟩
      · exact Or.inl ⟨h, fun e => absurd e hx⟩
      · exact Or.inr h
    · rintro (⟨h, e⟩ | h)
      · exact ⟨fun hxc => ht (e hxc), Or.inl h⟩
      · exact ⟨fun hxc => hco (hxc ▸ h), Or.inr h⟩

theorem explore_succ (r : Nat) (V : Finset α) (c : α) (anc : List α) :
    explore N T (r + 1) V c anc =
      ((exploreKids N T r c anc (marked N T V c) (order N T V c)).1,
        (c, anc) :: (exploreKids N T r c anc (marked N T V c) (order N T V c)).2) := rfl

theorem exploreKids_nil (r : Nat) (c : α) (anc : List α) (W : Finset α) :
    exploreKids N T r c anc W [] = (W, []) := rfl

theorem exploreKids_cons (r : Nat) (c : α) (anc : List α) (W : Finset α) (k : α) (ks : List α) :
    exploreKids N T r c anc W (k :: ks) =
      ((exploreKids N T r c anc (explore N T r W k (c :: anc)).1 ks).1,
        (explore N T r W k (c :: anc)).2 ++
          (exploreKids N T r c anc (explore N T r W k (c :: anc)).1 ks).2) := rfl

theorem exploreKids_zero (c : α) (anc : List α) (W : Finset α) (ks : List α) :
    (exploreKids N T 0 c anc W ks).2 = [] := by
  induction ks generalizing W with
  | nil => rfl
  | cons k ks ih => rw [exploreKids_cons]; simp [explore, ih]

/-! ## Marks -/

/-- What a search below `c` may do to the marks: the others stay, new ones are on expanded cells
    that touch a target, and `c` stays marked only when it is such a cell. -/
structure MarksSpec (r : Nat) (V : Finset α) (c : α) (res : Finset α × List (Approach α)) :
    Prop where
  keep : ∀ x ∈ V, x ≠ c → x ∈ res.1
  fresh : ∀ x ∈ res.1, x ∉ V → Touches N T x ∧ ∃ q ∈ res.2, q.1 = x
  self : c ∈ res.1 ↔ 0 < r ∧ Touches N T c

theorem explore_head {r : Nat} (hr : 0 < r) (V : Finset α) (c : α) (anc : List α) :
    (c, anc) ∈ (explore N T r V c anc).2 := by
  obtain ⟨r, rfl⟩ : ∃ k, r = k + 1 := ⟨r - 1, by omega⟩
  simp [explore_succ]

theorem exploreKids_head {r : Nat} (hr : 0 < r) {c : α} {anc : List α} {W : Finset α}
    {ks : List α} {k : α} (hk : k ∈ ks) : (k, c :: anc) ∈ (exploreKids N T r c anc W ks).2 := by
  induction ks generalizing W with
  | nil => simp at hk
  | cons k' ks ih =>
    rw [exploreKids_cons, List.mem_append]
    rcases List.mem_cons.mp hk with rfl | hk
    · exact Or.inl (explore_head hr W k (c :: anc))
    · exact Or.inr (ih hk)

/-- The kids are searched one by one, each still marked when its turn comes. -/
theorem exploreKids_marks {r : Nat} (c : α) (anc : List α)
    (ih : ∀ W k anc, k ∈ W → MarksSpec (N := N) (T := T) r W k (explore N T r W k anc))
    {ks : List α} {W : Finset α} (hks : ∀ k ∈ ks, k ∈ W) (hnd : ks.Nodup) :
    (∀ x ∈ W, x ∉ ks → x ∈ (exploreKids N T r c anc W ks).1) ∧
      ∀ x ∈ (exploreKids N T r c anc W ks).1, x ∉ W ∨ x ∈ ks →
        Touches N T x ∧ ∃ q ∈ (exploreKids N T r c anc W ks).2, q.1 = x := by
  induction ks generalizing W with
  | nil => simp only [exploreKids_nil]; exact ⟨by tauto, by simp⟩
  | cons k ks ihk =>
    rw [List.nodup_cons] at hnd
    have hk := ih W k (c :: anc) (hks k (by simp))
    obtain ⟨hkeep, hfresh⟩ := ihk
      (fun k' hk' => hk.keep k' (hks k' (by simp [hk'])) (fun e => hnd.1 (e ▸ hk'))) hnd.2
    rw [exploreKids_cons]
    refine ⟨fun x hx hxk => ?_, fun x hx hxW => ?_⟩
    · rw [List.mem_cons, not_or] at hxk
      exact hkeep x (hk.keep x hx hxk.1) hxk.2
    · have hlater : x ∉ (explore N T r W k (c :: anc)).1 ∨ x ∈ ks → _ := hfresh x hx
      have hfirst : x ∈ (explore N T r W k (c :: anc)).1 → x ∉ ks →
          Touches N T x ∧ ∃ q ∈ (explore N T r W k (c :: anc)).2, q.1 = x := by
        intro h1 hxks
        by_cases hxk : x = k
        · subst hxk
          obtain ⟨hr, ht⟩ := hk.self.mp h1
          exact ⟨ht, _, explore_head hr W x (c :: anc), rfl⟩
        · exact hk.fresh x h1 (hxW.resolve_right (by simp [hxk, hxks]))
      by_cases h1 : x ∈ (explore N T r W k (c :: anc)).1 ∧ x ∉ ks
      · obtain ⟨ht, q, hq, he⟩ := hfirst h1.1 h1.2
        exact ⟨ht, q, List.mem_append_left _ hq, he⟩
      · obtain ⟨ht, q, hq, he⟩ := hlater (by tauto)
        exact ⟨ht, q, List.mem_append_right _ hq, he⟩

theorem order_mem_marked {V : Finset α} {c : α} (hc : c ∈ V) :
    ∀ k ∈ order N T V c, k ∈ marked N T V c := fun _ hk => (mem_marked hc).mpr (Or.inr hk)

theorem not_mem_order {V : Finset α} {c x : α} (hx : x ∈ V) : x ∉ order N T V c :=
  fun h => (mem_order.mp h).2.1 hx

theorem explore_marks (r : Nat) (V : Finset α) (c : α) (anc : List α) (hc : c ∈ V) :
    MarksSpec (N := N) (T := T) r V c (explore N T r V c anc) := by
  induction r generalizing V c anc with
  | zero =>
    refine ⟨fun x hx hxc => ?_, fun x hx hxV => ?_, ?_⟩
    · simp [explore, hx, hxc]
    · exact absurd (Finset.mem_of_mem_erase hx) hxV
    · simp [explore]
  | succ r ih =>
    obtain ⟨hkeep, hfresh⟩ := exploreKids_marks (r := r) c anc ih
      (order_mem_marked (N := N) (T := T) hc) (nodup_order V c)
    rw [explore_succ]
    refine ⟨fun x hx hxc => ?_, fun x hx hxV => ?_, ?_⟩
    · exact hkeep x ((mem_marked hc).mpr (Or.inl ⟨hx, fun e => absurd e hxc⟩))
        (not_mem_order hx)
    · have hor : x ∉ marked N T V c ∨ x ∈ order N T V c := by
        rw [mem_marked hc]; tauto
      obtain ⟨ht, q, hq, he⟩ := hfresh x hx hor
      exact ⟨ht, q, List.mem_cons_of_mem _ hq, he⟩
    · -- the mark of `c` after the scan is not touched again: `c` is no kid of its own
      constructor
      · intro hx
        refine ⟨Nat.succ_pos r, ?_⟩
        by_contra ht
        have hm : c ∉ marked N T V c := by
          rw [mem_marked hc]
          rintro (h | h)
          · exact ht (h.2 rfl)
          · exact not_mem_order hc h
        exact ht (hfresh c hx (Or.inl hm)).1
      · rintro ⟨-, ht⟩
        exact hkeep c ((mem_marked hc).mpr (Or.inl ⟨hc, fun _ => ht⟩)) (not_mem_order hc)

/-! ## Approaches -/

/-- Every approach found below `c` continues the one that led to `c`, away from the targets and
    within the cap. -/
structure PathSpec (r : Nat) (c : α) (anc : List α) (q : Approach α) : Prop where
  suffix : (c :: anc) <:+ (q.1 :: q.2)
  chain : (c :: anc).IsChain (fun x y => x ∈ N y) → (q.1 :: q.2).IsChain (fun x y => x ∈ N y)
  wall : ∀ x ∈ q.1 :: q.2, x ∈ c :: anc ∨ ¬ T x
  cap : q.2.length < anc.length + r

theorem exploreKids_path {r : Nat} {c : α} {anc : List α}
    (ih : ∀ W k anc, ∀ q ∈ (explore N T r W k anc).2, PathSpec (N := N) (T := T) r k anc q)
    {ks : List α} {W : Finset α} (hks : ∀ k ∈ ks, k ∈ N c ∧ ¬ T k) :
    ∀ q ∈ (exploreKids N T r c anc W ks).2,
      ∃ k ∈ ks, PathSpec (N := N) (T := T) r k (c :: anc) q := by
  induction ks generalizing W with
  | nil => simp [exploreKids_nil]
  | cons k ks ihk =>
    intro q hq
    rw [exploreKids_cons, List.mem_append] at hq
    rcases hq with hq | hq
    · exact ⟨k, by simp, ih W k (c :: anc) q hq⟩
    · obtain ⟨k', hk', h⟩ := ihk (fun k' hk' => hks k' (by simp [hk'])) q hq
      exact ⟨k', by simp [hk'], h⟩

theorem explore_path (r : Nat) (V : Finset α) (c : α) (anc : List α) :
    ∀ q ∈ (explore N T r V c anc).2, PathSpec (N := N) (T := T) r c anc q := by
  induction r generalizing V c anc with
  | zero => simp [explore]
  | succ r ih =>
    intro q hq
    rw [explore_succ, List.mem_cons] at hq
    rcases hq with rfl | hq
    · exact ⟨List.suffix_rfl, id, fun x hx => Or.inl hx, by simp⟩
    · have hord : ∀ k ∈ order N T V c, k ∈ N c ∧ ¬ T k :=
        fun k hk => ⟨(mem_order.mp hk).1, (mem_order.mp hk).2.2⟩
      obtain ⟨k, hk, h⟩ := exploreKids_path ih hord q hq
      refine ⟨(List.suffix_cons k _).trans h.suffix, fun hch => ?_, fun x hx => ?_, ?_⟩
      · exact h.chain (List.isChain_cons_cons.mpr ⟨(hord k hk).1, hch⟩)
      · rcases h.wall x hx with hx | hx
        · rcases List.mem_cons.mp hx with rfl | hx
          · exact Or.inr (hord x hk).2
          · exact Or.inl hx
        · exact Or.inr hx
      · have := h.cap
        simp only [List.length_cons] at this
        omega

/-! ## A cell that touches a target is expanded once -/

/-- What one kid's search leaves marked for the kids after it. -/
theorem kids_stay_marked (r : Nat) (c : α) (anc : List α) {k : α} {ks : List α} {W : Finset α}
    (hks : ∀ k' ∈ k :: ks, k' ∈ W) (hnd : (k :: ks).Nodup) :
    ∀ k' ∈ ks, k' ∈ (explore N T r W k (c :: anc)).1 := by
  intro k' hk'
  refine (explore_marks r W k (c :: anc) (hks k (by simp))).keep k' (hks k' (by simp [hk'])) ?_
  exact fun e => (List.nodup_cons.mp hnd).1 (e ▸ hk')

/-- An expanded cell that touches a target keeps its mark, and had none unless it was pushed
    here. -/
theorem exploreKids_touching {r : Nat} {c : α} {anc : List α}
    (ih : ∀ W k anc, k ∈ W → ∀ q ∈ (explore N T r W k anc).2, Touches N T q.1 →
      q.1 ∈ (explore N T r W k anc).1 ∧ (q.1 = k ∨ q.1 ∉ W))
    {ks : List α} {W : Finset α} (hks : ∀ k ∈ ks, k ∈ W) (hnd : ks.Nodup) :
    ∀ q ∈ (exploreKids N T r c anc W ks).2, Touches N T q.1 →
      q.1 ∈ (exploreKids N T r c anc W ks).1 ∧ (q.1 ∈ ks ∨ q.1 ∉ W) := by
  induction ks generalizing W with
  | nil => simp [exploreKids_nil]
  | cons k ks ihk =>
    intro q hq ht
    have hks' := kids_stay_marked (N := N) (T := T) r c anc hks hnd
    rw [List.nodup_cons] at hnd
    have hk := explore_marks (N := N) (T := T) r W k (c :: anc) (hks k (by simp))
    rw [exploreKids_cons] at hq ⊢
    rcases List.mem_append.mp hq with hq | hq
    · obtain ⟨hm, h⟩ := ih W k (c :: anc) (hks k (by simp)) q hq ht
      have hqks : q.1 ∉ ks := by
        intro hqk
        rcases h with h | h
        · exact hnd.1 (h ▸ hqk)
        · exact h (hks q.1 (by simp [hqk]))
      refine ⟨(exploreKids_marks c anc (explore_marks r) hks' hnd.2).1 _ hm hqks, ?_⟩
      rcases h with h | h
      · exact Or.inl (by simp [h])
      · exact Or.inr h
    · obtain ⟨hm, h⟩ := ihk hks' hnd.2 q hq ht
      refine ⟨hm, ?_⟩
      by_cases hqk : q.1 = k
      · exact Or.inl (by simp [hqk])
      · rcases h with h | h
        · exact Or.inl (by simp [h])
        · exact Or.inr fun hW => h (hk.keep _ hW hqk)

theorem not_marked_of_new {V : Finset α} {c x : α} (hc : c ∈ V)
    (h : x ∈ order N T V c ∨ x ∉ marked N T V c) : x = c ∨ x ∉ V := by
  by_cases hxc : x = c
  · exact Or.inl hxc
  · rcases h with h | h
    · exact Or.inr (mem_order.mp h).2.1
    · exact Or.inr fun hV => h ((mem_marked hc).mpr (Or.inl ⟨hV, fun e => absurd e hxc⟩))

theorem explore_touching (r : Nat) (V : Finset α) (c : α) (anc : List α) (hc : c ∈ V) :
    ∀ q ∈ (explore N T r V c anc).2, Touches N T q.1 →
      q.1 ∈ (explore N T r V c anc).1 ∧ (q.1 = c ∨ q.1 ∉ V) := by
  induction r generalizing V c anc with
  | zero => simp [explore]
  | succ r ih =>
    have hself := (explore_marks (N := N) (T := T) (r + 1) V c anc hc).self
    intro q hq ht
    rw [explore_succ, List.mem_cons] at hq
    rcases hq with rfl | hq
    · exact ⟨hself.mpr ⟨Nat.succ_pos r, ht⟩, Or.inl rfl⟩
    · obtain ⟨hm, h⟩ := exploreKids_touching ih (order_mem_marked hc) (nodup_order V c) q hq ht
      rw [explore_succ]
      exact ⟨hm, not_marked_of_new hc h⟩

theorem exploreKids_pairwise {r : Nat} {c : α} {anc : List α}
    (ih : ∀ W k anc, k ∈ W → Distinct N T (explore N T r W k anc).2)
    {ks : List α} {W : Finset α} (hks : ∀ k ∈ ks, k ∈ W) (hnd : ks.Nodup) :
    Distinct N T (exploreKids N T r c anc W ks).2 := by
  induction ks generalizing W with
  | nil => exact List.Pairwise.nil
  | cons k ks ihk =>
    have hks' := kids_stay_marked (N := N) (T := T) r c anc hks hnd
    rw [exploreKids_cons]
    refine List.pairwise_append.mpr ⟨ih W k _ (hks k (by simp)),
      ihk hks' (List.nodup_cons.mp hnd).2, fun p hp q hq ht he => ?_⟩
    -- the first search leaves `p.1` marked, and it is none of the later kids
    obtain ⟨hm, hp'⟩ := explore_touching r W k (c :: anc) (hks k (by simp)) p hp ht
    obtain ⟨-, hq' | hq'⟩ := exploreKids_touching (explore_touching r) hks'
      (List.nodup_cons.mp hnd).2 q hq (he ▸ ht)
    · rw [← he] at hq'
      rcases hp' with h | h
      · exact (List.nodup_cons.mp hnd).1 (h ▸ hq')
      · exact h (hks _ (by simp [hq']))
    · exact hq' (he ▸ hm)

theorem explore_pairwise (r : Nat) (V : Finset α) (c : α) (anc : List α) (hc : c ∈ V) :
    Distinct N T (explore N T r V c anc).2 := by
  induction r generalizing V c anc with
  | zero => exact List.Pairwise.nil
  | succ r ih =>
    rw [explore_succ]
    refine List.pairwise_cons.mpr ⟨fun q hq ht he => ?_,
      exploreKids_pairwise ih (order_mem_marked hc) (nodup_order V c)⟩
    obtain ⟨-, h | h⟩ := exploreKids_touching (explore_touching r) (order_mem_marked hc)
      (nodup_order V c) q hq (he ▸ ht)
    · exact not_mem_order hc (he ▸ h)
    · have hm : c ∈ marked N T V c := (mem_marked hc).mpr (Or.inl ⟨hc, fun _ => ht⟩)
      exact h (he ▸ hm)

/-! ## What hides an approach -/

theorem exploreKids_closed {r : Nat} {c : α} {anc : List α}
    (ih : ∀ W k anc (seen : α → Prop), k ∈ W → (∀ x ∈ W, Hidden N T seen (k, anc) x) →
      ∀ q ∈ (explore N T r W k anc).2, ∀ y ∈ N q.1, ¬ T y → q.2.length + 1 < anc.length + r →
        (y, q.1 :: q.2) ∈ (explore N T r W k anc).2 ∨
          Hidden N T (fun x => seen x ∨ ∃ p ∈ (explore N T r W k anc).2, p.1 = x) q y)
    {ks : List α} {W : Finset α} (hks : ∀ k ∈ ks, k ∈ W) (hnd : ks.Nodup)
    {seen : α → Prop} (hW : ∀ x ∈ W, ∀ k, Hidden N T seen (k, c :: anc) x) :
    ∀ q ∈ (exploreKids N T r c anc W ks).2, ∀ y ∈ N q.1, ¬ T y →
      q.2.length + 1 < anc.length + (r + 1) →
      (y, q.1 :: q.2) ∈ (exploreKids N T r c anc W ks).2 ∨
        Hidden N T (fun x => seen x ∨ ∃ p ∈ (exploreKids N T r c anc W ks).2, p.1 = x) q y := by
  induction ks generalizing W seen with
  | nil => simp [exploreKids_nil]
  | cons k ks ihk =>
    intro q hq y hy hT hlen
    have hks' := kids_stay_marked (N := N) (T := T) r c anc hks hnd
    have hk := explore_marks (N := N) (T := T) r W k (c :: anc) (hks k (by simp))
    rw [exploreKids_cons] at hq ⊢
    simp only [List.mem_append]
    rcases List.mem_append.mp hq with hq | hq
    · rcases ih W k (c :: anc) seen (hks k (by simp)) (fun x hx => hW x hx k) q hq y hy hT
        (by simp only [List.length_cons]; omega) with h | h
      · exact Or.inl (Or.inl h)
      · refine Or.inr (h.mono ?_)
        rintro (h | ⟨p, hp, he⟩)
        · exact Or.inl h
        · exact Or.inr ⟨p, Or.inl hp, he⟩
    · -- what the kid left marked was marked before, or touches a target and is seen now
      have hW' : ∀ x ∈ (explore N T r W k (c :: anc)).1, ∀ k', Hidden N T
          (fun x => seen x ∨ ∃ p ∈ (explore N T r W k (c :: anc)).2, p.1 = x) (k', c :: anc) x := by
        intro x hx k'
        by_cases hxW : x ∈ W
        · exact (hW x hxW k').mono Or.inl
        · obtain ⟨ht, hp⟩ := hk.fresh x hx hxW
          exact Or.inr (Or.inr ⟨ht, Or.inr hp⟩)
      rcases ihk hks' (List.nodup_cons.mp hnd).2 hW' q hq y hy hT hlen with h | h
      · exact Or.inl (Or.inr h)
      · refine Or.inr (h.mono ?_)
        rintro ((h | ⟨p, hp, he⟩) | ⟨p, hp, he⟩)
        · exact Or.inl h
        · exact Or.inr ⟨p, Or.inl hp, he⟩
        · exact Or.inr ⟨p, Or.inr hp, he⟩

/-- Each neighbour of an expanded cell is expanded from there in turn, unless the cap is reached
    or it is hidden. `seen` are the cells expanded before. -/
theorem explore_closed (r : Nat) (V : Finset α) (c : α) (anc : List α) (seen : α → Prop)
    (hc : c ∈ V) (hV : ∀ x ∈ V, Hidden N T seen (c, anc) x) :
    ∀ q ∈ (explore N T r V c anc).2, ∀ y ∈ N q.1, ¬ T y → q.2.length + 1 < anc.length + r →
      (y, q.1 :: q.2) ∈ (explore N T r V c anc).2 ∨
        Hidden N T (fun x => seen x ∨ ∃ p ∈ (explore N T r V c anc).2, p.1 = x) q y := by
  induction r generalizing V c anc seen with
  | zero => simp [explore]
  | succ r ih =>
    intro q hq y hy hT hlen
    rw [explore_succ, List.mem_cons] at hq
    rw [explore_succ]
    simp only [List.mem_cons]
    rcases hq with rfl | hq
    · by_cases hyV : y ∈ V
      · exact Or.inr ((hV y hyV).mono Or.inl)
      · refine Or.inl (Or.inr (exploreKids_head (by simpa using hlen) ?_))
        exact mem_order.mpr ⟨hy, hyV, hT⟩
    · have hW : ∀ x ∈ marked N T V c, ∀ k, Hidden N T seen (k, c :: anc) x := by
        intro x hx k
        rcases (mem_marked hc).mp hx with ⟨hx, -⟩ | hx
        · exact (hV x hx).push
        · exact Or.inr (Or.inl ⟨c, by simp, (mem_order.mp hx).1⟩)
      rcases exploreKids_closed ih (order_mem_marked hc) (nodup_order V c) hW q hq y hy hT hlen
        with h | h
      · exact Or.inl (Or.inr h)
      · refine Or.inr (h.mono ?_)
        rintro (h | ⟨p, hp, he⟩)
        · exact Or.inl h
        · exact Or.inr ⟨p, Or.inr hp, he⟩

end Search

end TraxMania.Corridor
