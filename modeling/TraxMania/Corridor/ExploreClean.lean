import TraxMania.Lib.OpenWalk
import TraxMania.Corridor.Explore

/-
  The search checks simplicity against the marks, not against the path, and it unmarks a cell
  that touches no target as soon as the cell is expanded. Its approaches are simple all the same:
  a cell is unmarked only when every target-touching cell that could be reached from it within
  the steps it had left has been found (`explore_dead`), so pushing it a second time, with fewer
  steps left, finds nothing (`explore_clean`).

  For the same reason no found approach has a shortcut: no cell of it is a neighbour of a cell
  before its predecessor.
-/

namespace TraxMania.Corridor

open Lib.OpenWalk

variable {α : Type*}

/-- A path, newest cell first, that repeats no cell and has no shortcut. -/
def Clean (N : α → List α) : List α → Prop
  | [] => True
  | x :: rest => x ∉ rest ∧ (∀ a ∈ rest.tail, x ∉ N a) ∧ Clean N rest

theorem Clean.nodup {N : α → List α} {p : List α} (h : Clean N p) : p.Nodup := by
  induction p with
  | nil => exact List.nodup_nil
  | cons x p ih => exact List.nodup_cons.mpr ⟨h.1, ih h.2.2⟩

/-- A walk through unmarked cells to a cell that touches a target. -/
abbrev Escapes (N : α → List α) (T : α → Prop) (V : Finset α) (n : Nat) (a : α) : Prop :=
  Opens N T (Touches N T) V n a

theorem not_escapes_of_mem {N : α → List α} {T : α → Prop} {V : Finset α} {n : Nat} {a : α}
    (h : a ∈ V) : ¬ Escapes N T V n a := fun he => he.not_mem h

variable [DecidableEq α] {N : α → List α} {T : α → Prop} [DecidablePred T]

/-! ## What is unmarked is dead -/

/-- If nothing escapes from the cells pushed from `c`, nothing escapes from `c`. -/
theorem not_escapes_of_kids {V W : Finset α} {c : α} (hW : ∀ x ∈ V, x ≠ c → x ∈ W)
    (hc : Touches N T c → c ∈ W) (n : Nat)
    (hk : ∀ k ∈ order N T V c, ∀ m < n, ¬ Escapes N T W m k) : ¬ Escapes N T W n c := by
  induction n with
  | zero => exact fun h => h.1 (hc h.2)
  | succ n ih =>
    rintro ⟨hcW, ht | ⟨y, hy, hT, hn⟩⟩
    · exact hcW (hc ht)
    · by_cases hyc : y = c
      · subst hyc
        exact ih (fun k hk' m hm => hk k hk' m (by omega)) hn
      · have hyV : y ∉ V := fun hyV => hn.not_mem (hW y hyV hyc)
        exact hk y (mem_order.mpr ⟨hy, hyV, hT⟩) n (Nat.lt_succ_self n) hn

/-- After the kids are searched nothing escapes from them, whatever marks are taken away
    afterwards from cells nothing escapes from. -/
theorem exploreKids_dead {m : Nat} (c : α) (anc : List α)
    (ih : ∀ W k anc, k ∈ W → ¬ Escapes N T (explore N T (m + 1) W k anc).1 m k)
    {ks : List α} {W : Finset α} (hks : ∀ k ∈ ks, k ∈ W) (hnd : ks.Nodup)
    {V : Finset α} {n : Nat} (hnm : n ≤ m)
    (hV : ∀ x ∈ (exploreKids N T (m + 1) c anc W ks).1, x ∉ V → ¬ Escapes N T V n x) :
    ∀ k ∈ ks, ¬ Escapes N T V n k := by
  induction ks generalizing W with
  | nil => simp
  | cons k ks ihk =>
    have hks' := kids_stay_marked (N := N) (T := T) (m + 1) c anc hks hnd
    have hrest := ihk hks' (List.nodup_cons.mp hnd).2 hV
    intro k' hk'
    rcases List.mem_cons.mp hk' with rfl | hk'
    · refine not_opens_of_detour (W := (explore N T (m + 1) W k' (c :: anc)).1)
        (fun h => ih W k' (c :: anc) (hks k' (by simp)) (opens_mono hnm h)) fun d hd hdV => ?_
      by_cases hdk : d ∈ ks
      · exact hrest d hdk
      · refine hV d ?_ hdV
        rw [exploreKids_cons]
        exact (exploreKids_marks c anc (explore_marks (m + 1)) hks' (List.nodup_cons.mp hnd).2).1 d hd hdk
    · exact hrest k' hk'

/-- Once `c` is searched with `r + 1` steps left, nothing escapes from it within `r` steps. -/
theorem explore_dead (r : Nat) (V : Finset α) (c : α) (anc : List α) (hc : c ∈ V) :
    ¬ Escapes N T (explore N T (r + 1) V c anc).1 r c := by
  have hm := explore_marks (N := N) (T := T) (r + 1) V c anc hc
  refine not_escapes_of_kids hm.keep (fun ht => hm.self.mpr ⟨Nat.succ_pos r, ht⟩) r ?_
  induction r generalizing V c anc with
  | zero => intro k _ m hm'; omega
  | succ r ih =>
    intro k hk n hn
    refine exploreKids_dead c anc (fun W k anc hk => ?_) (order_mem_marked hc)
      (nodup_order V c) (Nat.lt_succ_iff.mp hn) (fun x hx hxV => absurd ?_ hxV) k hk
    · have hmk := explore_marks (N := N) (T := T) (r + 1) W k anc hk
      exact not_escapes_of_kids hmk.keep (fun ht => hmk.self.mpr ⟨Nat.succ_pos r, ht⟩) r
        (ih W k anc hk hmk)
    · rw [explore_succ]; exact hx

/-- What the kids of `c` find escapes from one of them, with the marks `c` was pushed under. -/
theorem exploreKids_escapes {r : Nat} {V : Finset α} {c : α} {anc : List α}
    (ih : ∀ W k anc, k ∈ W → ∀ q ∈ (explore N T (r + 1) W k anc).2, Touches N T q.1 →
      Escapes N T (W.erase k) r k)
    {ks : List α} {W : Finset α} (hks : ∀ k ∈ ks, k ∈ W) (hnd : ks.Nodup)
    (hord : ∀ k ∈ ks, k ∈ order N T V c) (hVW : ∀ x ∈ V, x ≠ c → x ∈ W) :
    ∀ q ∈ (exploreKids N T (r + 1) c anc W ks).2, Touches N T q.1 →
      ∃ k ∈ order N T V c, Escapes N T (V.erase c) r k := by
  induction ks generalizing W with
  | nil => simp [exploreKids_nil]
  | cons k ks ihk =>
    intro q hq ht
    have hk := explore_marks (N := N) (T := T) (r + 1) W k (c :: anc) (hks k (by simp))
    have hne : ∀ x ∈ V, x ≠ k := fun x hx e => not_mem_order hx (e ▸ hord k (by simp))
    rw [exploreKids_cons, List.mem_append] at hq
    rcases hq with hq | hq
    · refine ⟨k, hord k (by simp),
        opens_antitone (fun x hx => ?_) (ih W k (c :: anc) (hks k (by simp)) q hq ht)⟩
      rw [Finset.mem_erase] at hx ⊢
      exact ⟨hne x hx.2, hVW x hx.2 hx.1⟩
    · exact ihk (kids_stay_marked _ _ _ hks hnd) (List.nodup_cons.mp hnd).2
        (fun k' hk' => hord k' (by simp [hk']))
        (fun x hx hxc => hk.keep x (hVW x hx hxc) (hne x hx)) q hq ht

theorem mem_marked_of_ne {V : Finset α} {c : α} (hc : c ∈ V) :
    ∀ x ∈ V, x ≠ c → x ∈ marked N T V c :=
  fun _ hx hxc => (mem_marked hc).mpr (Or.inl ⟨hx, fun e => absurd e hxc⟩)

/-- A target-touching cell found below `c` escapes from `c` once `c` is unmarked. -/
theorem explore_escapes (r : Nat) (V : Finset α) (c : α) (anc : List α) (hc : c ∈ V) :
    ∀ q ∈ (explore N T (r + 1) V c anc).2, Touches N T q.1 →
      Escapes N T (V.erase c) r c := by
  induction r generalizing V c anc with
  | zero =>
    intro q hq ht
    rw [explore_succ, exploreKids_zero, List.mem_singleton] at hq
    subst hq
    exact opens_of_goal 0 (by simp) ht
  | succ r ih =>
    intro q hq ht
    rw [explore_succ, List.mem_cons] at hq
    rcases hq with rfl | hq
    · exact opens_of_goal _ (by simp) ht
    · obtain ⟨k, hk, he⟩ := exploreKids_escapes ih (order_mem_marked hc) (nodup_order V c)
        (fun k hk => hk) (mem_marked_of_ne hc) q hq ht
      obtain ⟨hkN, -, hkT⟩ := mem_order.mp hk
      exact opens_of_step (by simp) hkN hkT he

/-! ## Approaches are simple and have no shortcut -/

/-- The cells a search may not come back to, each with the steps within which nothing escapes
    from it. Deadness is claimed of every set of marks `W` the search below `c` can still see. -/
structure Dead (N : α → List α) (T : α → Prop) (Z : List (α × Nat)) (r : Nat) (V : Finset α)
    (c : α) : Prop where
  level : ∀ z ∈ Z, r ≤ z.2
  dead : ∀ W : Finset α, (∀ x ∈ V, x ≠ c → x ∈ W) → ¬ Escapes N T W r c →
    ∀ z ∈ Z, ¬ Escapes N T W z.2 z.1
  root : ∀ z ∈ Z, z.1 = c → ¬ Escapes N T (V.erase c) r c

/-- What the cells behind `c` contribute: they are dead, and each of their neighbours is a
    target, marked or dead. -/
structure Fenced (N : α → List α) (T : α → Prop) (Z : List (α × Nat)) (V : Finset α)
    (anc : List α) : Prop where
  behind : ∀ a ∈ anc, ∃ z ∈ Z, z.1 = a
  around : ∀ a ∈ anc, ∀ y ∈ N a, T y ∨ y ∈ V ∨ ∃ z ∈ Z, z.1 = y

/-- The dead cells at a kid of `c`: those at `c`, `c` itself, and the kids searched before. -/
def deadAt (Z : List (α × Nat)) (m : Nat) (c : α) (done : List α) : List (α × Nat) :=
  Z ++ (c, m + 1) :: done.map (·, m)

omit [DecidableEq α] in
theorem mem_deadAt {Z : List (α × Nat)} {m : Nat} {c : α} {done : List α} {z : α × Nat} :
    z ∈ deadAt Z m c done ↔ z ∈ Z ∨ z = (c, m + 1) ∨ ∃ k ∈ done, z = (k, m) := by
  simp [deadAt, eq_comm]

/-- The state between two kids of `c`: `done` are searched, `rest` are to come. -/
structure Between (N : α → List α) (T : α → Prop) [DecidablePred T] (m : Nat) (V : Finset α)
    (c : α) (done rest : List α) (W : Finset α) : Prop where
  split : order N T V c = done ++ rest
  keep : ∀ x ∈ V, (x = c → Touches N T c) → x ∈ W
  pending : ∀ k ∈ rest, k ∈ W
  dead : ∀ (W' : Finset α) (n : Nat), n ≤ m →
    (∀ x ∈ W, x ∉ W' → ¬ Escapes N T W' n x) → ∀ k ∈ done, ¬ Escapes N T W' n k

namespace Between

variable {m : Nat} {V W : Finset α} {c k : α} {done rest : List α}

theorem nodup (h : Between N T m V c done rest W) : (done ++ rest).Nodup :=
  h.split ▸ nodup_order V c

theorem not_mem_of_rest (h : Between N T m V c done (k :: rest) W) : k ∉ V :=
  (mem_order.mp (h.split ▸ (by simp : k ∈ done ++ k :: rest))).2.1

theorem ne_of_mem (h : Between N T m V c done (k :: rest) W) {x : α} (hx : x ∈ V) : x ≠ k :=
  fun e => h.not_mem_of_rest (e ▸ hx)

/-- The search of `k` sees every mark of `V` except that of `c`. -/
theorem keep_ne (h : Between N T m V c done (k :: rest) W) {W' : Finset α}
    (hW : ∀ x ∈ W, x ≠ k → x ∈ W') : ∀ x ∈ V, x ≠ c → x ∈ W' :=
  fun x hx hxc => hW x (h.keep x hx fun e => absurd e hxc) (h.ne_of_mem hx)

/-- If `k` is dead under `W'`, so are all kids of `c`. -/
theorem kids_dead (h : Between N T m V c done (k :: rest) W) {W' : Finset α} {n : Nat}
    (hn : n ≤ m) (hW : ∀ x ∈ W, x ≠ k → x ∈ W') (hk : ¬ Escapes N T W' n k) :
    ∀ k' ∈ order N T V c, ¬ Escapes N T W' n k' := by
  intro k' hk'
  rw [h.split, List.mem_append, List.mem_cons] at hk'
  rcases hk' with hk' | rfl | hk'
  · refine h.dead W' n hn (fun x hx hxW => ?_) k' hk'
    by_cases hxk : x = k
    · exact hxk ▸ hk
    · exact absurd (hW x hx hxk) hxW
  · exact hk
  · refine not_escapes_of_mem (hW k' (h.pending k' (by simp [hk'])) fun e => ?_)
    subst e
    have := List.nodup_cons.mp (List.nodup_append.mp h.nodup).2.1
    exact this.1 hk'

/-- If `k` is dead under `W'` within every `n' < n` steps, `c` is dead within `n`. -/
theorem root_dead (h : Between N T m V c done (k :: rest) W) (hc : c ∈ V) {W' : Finset α}
    {n : Nat} (hn : n ≤ m + 1) (hW : ∀ x ∈ W, x ≠ k → x ∈ W')
    (hk : ∀ n' < n, ¬ Escapes N T W' n' k) : ¬ Escapes N T W' n c := by
  refine not_escapes_of_kids (h.keep_ne hW) (fun ht => ?_) n fun k' hk' n' hn' => ?_
  · exact hW c (h.keep c hc fun _ => ht) (h.ne_of_mem hc)
  · exact h.kids_dead (by omega) hW (hk n' hn') k' hk'

theorem start (hc : c ∈ V) : Between N T m V c [] (order N T V c) (marked N T V c) :=
  ⟨rfl, fun _ hx hxc => (mem_marked hc).mpr (Or.inl ⟨hx, hxc⟩), order_mem_marked hc,
    fun _ _ _ _ => by simp⟩

theorem next (h : Between N T m V c done (k :: rest) W) (anc : List α) :
    Between N T m V c (done ++ [k]) rest (explore N T (m + 1) W k anc).1 := by
  have hk := explore_marks (N := N) (T := T) (m + 1) W k anc (h.pending k (by simp))
  have hnd := List.nodup_cons.mp (List.nodup_append.mp h.nodup).2.1
  refine ⟨by rw [h.split]; simp, fun x hx hxc => hk.keep x (h.keep x hx hxc) (h.ne_of_mem hx),
    fun k' hk' => hk.keep k' (h.pending k' (by simp [hk'])) fun e => hnd.1 (e ▸ hk'), ?_⟩
  intro W' n hn hW k' hk'
  have hdead : ¬ Escapes N T W' n k := by
    refine not_opens_of_detour (W := (explore N T (m + 1) W k anc).1) (fun he => ?_) hW
    exact explore_dead m W k anc (h.pending k (by simp)) (opens_mono hn he)
  rcases List.mem_append.mp hk' with hk' | hk'
  · refine h.dead W' n hn (fun x hx hxW => ?_) k' hk'
    by_cases hxk : x = k
    · exact hxk ▸ hdead
    · exact hW x (hk.keep x hx hxk) hxW
  · rw [List.mem_singleton] at hk'
    exact hk' ▸ hdead

/-- A dead cell that is pushed again from `c` stays dead while it is searched. The induction is
    on the steps: a walk from it that was not open before goes through `c`, and from there
    through a kid of `c` with fewer steps left. -/
theorem repushed_dead (h : Between N T m V c done (k :: rest) W) (hc : c ∈ V)
    (hk : ¬ Escapes N T V m k) : ∀ n ≤ m, ¬ Escapes N T (W.erase k) n k := by
  have hW : ∀ x ∈ W, x ≠ k → x ∈ W.erase k := fun x hx hxk => Finset.mem_erase.mpr ⟨hxk, hx⟩
  intro n
  induction n using Nat.strong_induction_on with
  | _ n ih =>
    intro hn
    refine not_opens_of_detour (W := V) (fun he => hk (opens_mono hn he)) fun d hd hdW => ?_
    have hdc : d = c := by
      by_contra hdc
      exact hdW (h.keep_ne hW d hd hdc)
    subst hdc
    exact h.root_dead hc (by omega) hW fun n' hn' => ih n' hn' (by omega)

theorem deadKid (h : Between N T m V c done (k :: rest) W) (hc : c ∈ V) {Z : List (α × Nat)}
    (hZ : Dead N T Z (m + 1) V c) : Dead N T (deadAt Z m c done) m W k where
  level z hz := by
    rcases mem_deadAt.mp hz with hz | rfl | ⟨k', -, rfl⟩
    · have := hZ.level z hz
      omega
    · exact Nat.le_succ m
    · exact Nat.le_refl m
  dead W' hW hk z hz := by
    have hk' : ∀ n' < m + 1, ¬ Escapes N T W' n' k :=
      fun n' hn' he => hk (opens_mono (by omega) he)
    have hcd := h.root_dead hc (Nat.le_refl _) hW hk'
    rcases mem_deadAt.mp hz with hz | rfl | ⟨k', hk'', rfl⟩
    · exact hZ.dead W' (h.keep_ne hW) hcd z hz
    · exact hcd
    · exact h.kids_dead (Nat.le_refl m) hW hk k' (h.split ▸ List.mem_append_left _ hk'')
  root z hz hzk := by
    rcases mem_deadAt.mp hz with hz | rfl | ⟨k', hk', rfl⟩
    · refine h.repushed_dead hc (fun he => ?_) m (Nat.le_refl m)
      refine hZ.dead V (fun x hx _ => hx) (not_escapes_of_mem hc) z hz (hzk ▸ ?_)
      exact opens_mono (by have := hZ.level z hz; omega) he
    · exact absurd hzk (h.ne_of_mem hc)
    · have hnd := (List.nodup_append.mp h.nodup).2.2
      exact absurd hzk (hnd k' hk' k (by simp))

theorem fencedKid (h : Between N T m V c done (k :: rest) W) {Z : List (α × Nat)}
    {anc : List α} (hF : Fenced N T Z V anc) : Fenced N T (deadAt Z m c done) W (c :: anc) := by
  have hcZ : ∃ z ∈ deadAt Z m c done, z.1 = c := ⟨_, mem_deadAt.mpr (Or.inr (Or.inl rfl)), rfl⟩
  have hZZ : ∀ y, (∃ z ∈ Z, z.1 = y) → ∃ z ∈ deadAt Z m c done, z.1 = y :=
    fun y ⟨z, hz, he⟩ => ⟨z, mem_deadAt.mpr (Or.inl hz), he⟩
  have hV : ∀ y ∈ V, y ∈ W ∨ ∃ z ∈ deadAt Z m c done, z.1 = y := by
    intro y hy
    by_cases hyc : y = c
    · exact Or.inr (hyc ▸ hcZ)
    · exact Or.inl (h.keep y hy fun e => absurd e hyc)
  refine ⟨fun a ha => ?_, fun a ha y hy => ?_⟩
  · rcases List.mem_cons.mp ha with rfl | ha
    · exact hcZ
    · exact hZZ a (hF.behind a ha)
  · rcases List.mem_cons.mp ha with rfl | ha
    · by_cases hyT : T y
      · exact Or.inl hyT
      · by_cases hyV : y ∈ V
        · exact Or.inr (hV y hyV)
        · have hyo : y ∈ done ++ k :: rest := h.split ▸ mem_order.mpr ⟨hy, hyV, hyT⟩
          rcases List.mem_append.mp hyo with hyo | hyo
          · exact Or.inr (Or.inr ⟨(y, m), mem_deadAt.mpr (Or.inr (Or.inr ⟨y, hyo, rfl⟩)), rfl⟩)
          · exact Or.inr (Or.inl (h.pending y hyo))
    · rcases hF.around a ha y hy with h1 | h1 | h1
      · exact Or.inl h1
      · exact Or.inr (hV y h1)
      · exact Or.inr (Or.inr (hZZ y h1))

end Between

/-- The approaches found below `c` to cells that touch a target are clean. -/
def FindsClean (N : α → List α) (T : α → Prop) (E : List (Approach α)) : Prop :=
  ∀ q ∈ E, Touches N T q.1 → Clean N (q.1 :: q.2)

theorem exploreKids_clean {m : Nat} {c : α} {anc : List α} {V : Finset α} {Z : List (α × Nat)}
    (ih : ∀ W k Z, k ∈ W → Dead N T Z m W k → Fenced N T Z W (c :: anc) →
      ((∀ z ∈ Z, z.1 ≠ k) → Clean N (k :: c :: anc)) →
      FindsClean N T (explore N T (m + 1) W k (c :: anc)).2)
    (hc : c ∈ V) (hZ : Dead N T Z (m + 1) V c) (hF : Fenced N T Z V anc)
    (hcl : Clean N (c :: anc)) {ks done : List α} {W : Finset α}
    (h : Between N T m V c done ks W) :
    FindsClean N T (exploreKids N T (m + 1) c anc W ks).2 := by
  induction ks generalizing W done with
  | nil => simp [FindsClean, exploreKids_nil]
  | cons k ks ihk =>
    intro q hq ht
    rw [exploreKids_cons, List.mem_append] at hq
    rcases hq with hq | hq
    · refine ih W k _ (h.pending k (by simp)) (h.deadKid hc hZ) (h.fencedKid hF) ?_ q hq ht
      intro hkZ
      have hkc : k ∉ c :: anc := by
        intro hk
        obtain ⟨z, hz, he⟩ := (h.fencedKid hF).behind k hk
        exact hkZ z hz he
      refine ⟨hkc, fun a ha hk => ?_, hcl⟩
      -- a neighbour of a cell behind `c` is a target, marked or dead; `k` is none of them
      rcases hF.around a ha k hk with h1 | h1 | ⟨z, hz, he⟩
      · exact (mem_order.mp (h.split ▸ (by simp : k ∈ done ++ k :: ks))).2.2 h1
      · exact h.not_mem_of_rest h1
      · exact hkZ z (mem_deadAt.mpr (Or.inl hz)) he
    · exact ihk (h.next (c :: anc)) q hq ht

theorem explore_clean (r : Nat) (V : Finset α) (c : α) (anc : List α) (Z : List (α × Nat))
    (hc : c ∈ V) (hZ : Dead N T Z r V c) (hF : Fenced N T Z V anc)
    (hcl : (∀ z ∈ Z, z.1 ≠ c) → Clean N (c :: anc)) :
    FindsClean N T (explore N T (r + 1) V c anc).2 := by
  induction r generalizing V c anc Z with
  | zero =>
    intro q hq ht
    have hesc := explore_escapes 0 V c anc hc q hq ht
    rw [explore_succ, exploreKids_zero, List.mem_singleton] at hq
    subst hq
    exact hcl fun z hz he => hZ.root z hz he hesc
  | succ m ih =>
    intro q hq ht
    have hcl' := hcl fun z hz he => hZ.root z hz he (explore_escapes (m + 1) V c anc hc q hq ht)
    rw [explore_succ, List.mem_cons] at hq
    rcases hq with rfl | hq
    · exact hcl'
    · exact exploreKids_clean (fun W k Z => ih W k (c :: anc) Z) hc hZ hF hcl'
        (Between.start hc) q hq ht

/-- The search below a source, whatever is marked before. -/
theorem explore_source_clean (r : Nat) (V : Finset α) (s : α) (hs : s ∈ V) :
    FindsClean N T (explore N T r V s []).2 := by
  cases r with
  | zero => simp [FindsClean, explore]
  | succ r =>
    exact explore_clean r V s [] [] hs ⟨by simp, by simp, by simp⟩ ⟨by simp, by simp⟩
      fun _ => ⟨by simp, by simp, trivial⟩

end TraxMania.Corridor
