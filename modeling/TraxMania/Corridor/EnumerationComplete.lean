import TraxMania.Corridor.EnumerationSound

/-
  When the enumerator finds every corridor. A cell that touches a target keeps its mark after its
  first expansion, until its own turn as a source is over; so between two such points only one
  approach to it is recorded. The list of paths is complete exactly when there is no second one
  (`enumerateSimplePaths_complete_iff`).
-/

namespace TraxMania.Corridor

open TraxMania.Grid

variable {α : Type*} {N : α → List α} {T : α → Prop}

/-- Whether the search from `s` comes before (`lt`), is (`eq`) or comes after (`gt`) the search
    from `c` itself. A cell that is no source has every search before it. -/
def turnOf [DecidableEq α] (S : List α) (s c : α) : Ordering := compare (S.idxOf s) (S.idxOf c)

/-- A cell that touches a target has at most one approach from the sources before its own turn,
    one from itself, and one from the sources after it. -/
def OneApproach [DecidableEq α] (N : α → List α) (T : α → Prop) (r : Nat) (S : List α) : Prop :=
  ∀ s₁ ∈ S, ∀ s₂ ∈ S, ∀ a₁ a₂, IsApproach N T r s₁ a₁ → IsApproach N T r s₂ a₂ →
    a₁.1 = a₂.1 → Touches N T a₁.1 → turnOf S s₁ a₁.1 = turnOf S s₂ a₁.1 → a₁ = a₂

/-! ## Approaches cut and shortened -/

theorem IsApproach.cut {r : Nat} {s : α} {a : Approach α} (h : IsApproach N T r s a) {y : α}
    {anc : List α} (hs : y :: anc <:+ a.1 :: a.2) : IsApproach N T r s (y, anc) where
  start := by
    obtain ⟨front, hf⟩ := hs
    have h' := h.start
    rw [← hf, List.getLast?_append_of_ne_nil _ (by simp)] at h'
    exact h'
  chain := h.chain.suffix hs
  wall := fun x hx => h.wall x (hs.subset hx)
  cap := by
    have h1 := hs.length_le
    have h2 := h.cap
    simp only [List.length_cons] at h1
    exact (by omega : anc.length < r)
  simple := h.simple.sublist hs.sublist

/-- An edge past the predecessor of `y` gives a shorter approach to the same cell. -/
theorem IsApproach.shortcut {r : Nat} {s : α} {a : Approach α} (h : IsApproach N T r s a)
    {front u v : List α} {y z b : α} (ha : a.1 :: a.2 = front ++ y :: z :: (u ++ b :: v))
    (hb : y ∈ N b) :
    ∃ a' : Approach α, IsApproach N T r s a' ∧ a'.1 = a.1 ∧ a'.2.length < a.2.length := by
  have hsub : (front ++ y :: b :: v).Sublist (a.1 :: a.2) := by
    rw [ha]
    refine List.Sublist.append_left (List.Sublist.cons_cons y ?_) front
    exact (List.sublist_append_right u (b :: v)).cons z
  have hlen : (front ++ y :: b :: v).length < (a.1 :: a.2).length := by
    rw [ha]
    simp only [List.length_append, List.length_cons]
    omega
  obtain ⟨a', ha', hhead⟩ : ∃ a' : Approach α, a'.1 :: a'.2 = front ++ y :: b :: v ∧
      a'.1 = a.1 := by
    cases front with
    | nil => exact ⟨(y, b :: v), rfl, (List.cons.inj ha).1.symm⟩
    | cons x front => exact ⟨(x, front ++ y :: b :: v), rfl, (List.cons.inj ha).1.symm⟩
  rw [← ha'] at hsub hlen
  simp only [List.length_cons] at hlen
  refine ⟨a', ⟨?_, ?_, fun x hx => h.wall x (hsub.subset hx), by have := h.cap; omega,
    h.simple.sublist hsub⟩, hhead, by omega⟩
  · have h' := h.start
    rw [ha, List.getLast?_append_of_ne_nil _ (by simp)] at h'
    have happ : y :: z :: (u ++ b :: v) = (y :: z :: u) ++ b :: v := rfl
    rw [ha', List.getLast?_append_of_ne_nil _ (by simp), List.getLast?_cons_cons, ← h', happ,
      List.getLast?_append_of_ne_nil _ (by simp)]
  · have hch := h.chain
    rw [ha, List.isChain_append] at hch
    rw [ha', List.isChain_append]
    refine ⟨hch.1, ?_, by simpa using hch.2.2⟩
    have h2 := (List.isChain_cons_cons.mp hch.2.1).2
    rw [List.isChain_cons_cons]
    exact ⟨hb, h2.suffix ((List.suffix_append u (b :: v)).trans (List.suffix_cons z _))⟩

/-! ## Marks between the searches -/

variable [DecidableEq α] [DecidablePred T]

theorem marksAfter_append (r : Nat) (V : Finset α) (A B : List α) :
    marksAfter N T r V (A ++ B) = marksAfter N T r (marksAfter N T r V A) B := by
  induction A generalizing V with
  | nil => rfl
  | cons s A ih => exact ih _

/-- A search leaves the marks of the others alone, whoever made them. -/
theorem mem_marksAfter_of_not_mem {r : Nat} {V : Finset α} {S : List α} {x : α} (hx : x ∈ V)
    (hS : x ∉ S) : x ∈ marksAfter N T r V S := by
  induction S generalizing V with
  | nil => exact hx
  | cons s S ih =>
    rw [List.mem_cons, not_or] at hS
    unfold marksAfter
    refine ih ?_ hS.2
    split
    · exact hx
    · refine Finset.mem_erase.mpr ⟨hS.1, ?_⟩
      exact (explore_marks r (insert s V) s [] (Finset.mem_insert_self s V)).keep x
        (Finset.mem_insert_of_mem hx) hS.1

/-- A mark left over is on a cell that touches a target and that an earlier search, none of its
    own in between, has expanded. -/
theorem marksAfter_origin {r : Nat} {pre : List α} {x : α} (hx : x ∈ marksAfter N T r ∅ pre) :
    Touches N T x ∧ ∃ pre₁ s₁ post₁, pre = pre₁ ++ s₁ :: post₁ ∧ x ≠ s₁ ∧ x ∉ post₁ ∧
      ∃ a ∈ runOf N T r ∅ pre₁ s₁, a.1 = x := by
  induction pre using List.reverseRecOn with
  | nil => simp [marksAfter] at hx
  | append_singleton pre s ih =>
    have hlater : x ∈ marksAfter N T r ∅ pre → x ≠ s → Touches N T x ∧
        ∃ pre₁ s₁ post₁, pre ++ [s] = pre₁ ++ s₁ :: post₁ ∧ x ≠ s₁ ∧ x ∉ post₁ ∧
          ∃ a ∈ runOf N T r ∅ pre₁ s₁, a.1 = x := by
      intro hxp hxs
      obtain ⟨ht, pre₁, s₁, post₁, rfl, hs₁, hpost, ha⟩ := ih hxp
      exact ⟨ht, pre₁, s₁, post₁ ++ [s], by simp, hs₁, by simp [hpost, hxs], ha⟩
    rw [marksAfter_append] at hx
    unfold marksAfter marksAfter at hx
    split at hx
    · next hT =>
      refine hlater hx fun hxs => ?_
      obtain ⟨ht, pre₁, s₁, -, -, -, -, a, ha, rfl⟩ := ih hx
      exact (runOf_approach ha ht).wall a.1 (by simp) (hxs ▸ hT)
    · next hT =>
      obtain ⟨hxs, hx⟩ := Finset.mem_erase.mp hx
      by_cases hxp : x ∈ marksAfter N T r ∅ pre
      · exact hlater hxp hxs
      · obtain ⟨ht, a, ha, hax⟩ := (explore_marks r (insert s (marksAfter N T r ∅ pre)) s []
          (Finset.mem_insert_self s _)).fresh x hx (by simp [hxs, hxp])
        refine ⟨ht, pre, s, [], rfl, hxs, by simp, a, ?_, hax⟩
        rw [runOf, if_neg hT]
        exact ha

/-- A target-touching cell found below `s`, another cell, was unmarked and is marked now. -/
theorem runOf_marks {r : Nat} {V : Finset α} {pre : List α} {s : α} {a : Approach α}
    (ha : a ∈ runOf N T r V pre s) (ht : Touches N T a.1) (hs : a.1 ≠ s) :
    a.1 ∉ marksAfter N T r V pre ∧ a.1 ∈ marksAfter N T r V (pre ++ [s]) := by
  unfold runOf at ha
  split at ha
  · simp at ha
  · next hT =>
    obtain ⟨hm, h⟩ := explore_touching r _ s [] (Finset.mem_insert_self s _) a ha ht
    refine ⟨fun hV => h.resolve_left hs (Finset.mem_insert_of_mem hV), ?_⟩
    rw [marksAfter_append]
    unfold marksAfter marksAfter
    rw [if_neg hT]
    exact Finset.mem_erase.mpr ⟨hs, hm⟩

/-! ## At most one approach is found -/

omit [DecidableEq α] [DecidablePred T] in
theorem Distinct.eq_of_same_cell {E : List (Approach α)} (h : Distinct N T E) {p q : Approach α}
    (hp : p ∈ E) (hq : q ∈ E) (ht : Touches N T p.1) (he : p.1 = q.1) : p = q := by
  induction E with
  | nil => simp at hp
  | cons e E ih =>
    obtain ⟨hhead, htail⟩ := List.pairwise_cons.mp h
    rcases List.mem_cons.mp hp with hpe | hpE
    · rcases List.mem_cons.mp hq with hqe | hqE
      · rw [hpe, hqe]
      · subst hpe
        exact absurd he (hhead q hqE ht)
    · rcases List.mem_cons.mp hq with hqe | hqE
      · subst hqe
        exact absurd he.symm (hhead p hpE (he ▸ ht))
      · exact ih htail hpE hqE

theorem runOf_distinct (r : Nat) (V : Finset α) (pre : List α) (s : α) :
    Distinct N T (runOf N T r V pre s) := by
  unfold runOf
  split
  · exact List.Pairwise.nil
  · exact explore_pairwise r _ s [] (Finset.mem_insert_self s _)

theorem idxOf_middle {pre post : List α} {s : α} (h : (pre ++ s :: post).Nodup) :
    (pre ++ s :: post).idxOf s = pre.length := by
  have hs : s ∉ pre := fun hs => (List.nodup_append.mp h).2.2 s hs s (by simp) rfl
  rw [List.idxOf_append, if_neg hs, List.idxOf_cons_self]
  simp

theorem idxOf_second {pre mid post : List α} {s₁ s₂ : α}
    (h : (pre ++ s₁ :: (mid ++ s₂ :: post)).Nodup) :
    (pre ++ s₁ :: (mid ++ s₂ :: post)).idxOf s₂ = pre.length + (mid.length + 1) := by
  have hassoc : pre ++ s₁ :: (mid ++ s₂ :: post) = (pre ++ s₁ :: mid) ++ s₂ :: post := by simp
  rw [hassoc] at h ⊢
  rw [idxOf_middle h, List.length_append, List.length_cons]

/-- Two searches that find approaches to one target-touching cell are on different sides of its
    own turn. -/
theorem turnOf_ne_of_found {r : Nat} {pre mid post : List α} {s₁ s₂ : α} {a₁ a₂ : Approach α}
    (hnd : (pre ++ s₁ :: (mid ++ s₂ :: post)).Nodup)
    (h₁ : a₁ ∈ runOf N T r ∅ pre s₁) (h₂ : a₂ ∈ runOf N T r ∅ (pre ++ s₁ :: mid) s₂)
    (he : a₁.1 = a₂.1) (ht : Touches N T a₁.1) :
    turnOf (pre ++ s₁ :: (mid ++ s₂ :: post)) s₁ a₁.1 ≠
      turnOf (pre ++ s₁ :: (mid ++ s₂ :: post)) s₂ a₁.1 := by
  have hi₁ := idxOf_middle hnd
  have hi₂ := idxOf_second hnd
  unfold turnOf
  rw [hi₁, hi₂]
  intro hturn
  have hne₁ : a₁.1 ≠ s₁ := by
    intro hc
    rw [hc, hi₁, Nat.compare_eq_eq.mpr rfl] at hturn
    have := Nat.compare_eq_eq.mp hturn.symm
    omega
  have hne₂ : a₁.1 ≠ s₂ := by
    intro hc
    rw [hc, hi₂, Nat.compare_eq_eq.mpr rfl] at hturn
    have := Nat.compare_eq_eq.mp hturn
    omega
  have hmid : a₁.1 ∉ mid := by
    intro hc
    obtain ⟨m₁, m₂, rfl⟩ := List.append_of_mem hc
    have hi : (pre ++ s₁ :: (m₁ ++ a₁.1 :: m₂ ++ s₂ :: post)).idxOf a₁.1 =
        pre.length + (m₁.length + 1) := by
      rw [List.append_assoc, List.cons_append] at hnd ⊢
      exact idxOf_second hnd
    rw [hi, List.length_append, List.length_cons,
      Nat.compare_eq_lt.mpr (by omega), Nat.compare_eq_gt.mpr (by omega)] at hturn
    exact absurd hturn (by decide)
  -- found below `s₁`, the cell is marked until the search from `s₂`
  have hm := mem_marksAfter_of_not_mem (N := N) (T := T) (r := r) (runOf_marks h₁ ht hne₁).2 hmid
  rw [← marksAfter_append] at hm
  have hu := (runOf_marks h₂ (he ▸ ht) (he ▸ hne₂)).1
  rw [← he] at hu
  simp only [List.append_assoc, List.singleton_append] at hm
  exact hu hm

/-- `a` is expanded below the source `s` of `S`. -/
def FoundFrom (N : α → List α) (T : α → Prop) [DecidablePred T] (r : Nat) (S : List α) (s : α)
    (a : Approach α) : Prop :=
  ∃ pre post, S = pre ++ s :: post ∧ a ∈ runOf N T r ∅ pre s

theorem FoundFrom.approach {r : Nat} {S : List α} {s : α} {a : Approach α}
    (h : FoundFrom N T r S s a) (ht : Touches N T a.1) : s ∈ S ∧ IsApproach N T r s a := by
  obtain ⟨pre, post, rfl, ha⟩ := h
  exact ⟨by simp, runOf_approach ha ht⟩

theorem FoundFrom.unique {r : Nat} {S : List α} (hS : S.Nodup) {s₁ s₂ : α} {a₁ a₂ : Approach α}
    (h₁ : FoundFrom N T r S s₁ a₁) (h₂ : FoundFrom N T r S s₂ a₂) (he : a₁.1 = a₂.1)
    (ht : Touches N T a₁.1) (hturn : turnOf S s₁ a₁.1 = turnOf S s₂ a₁.1) : a₁ = a₂ := by
  obtain ⟨pre₁, post₁, hS₁, hf₁⟩ := h₁
  obtain ⟨pre₂, post₂, hS₂, hf₂⟩ := h₂
  rcases List.append_eq_append_iff.mp (hS₁.symm.trans hS₂) with ⟨w, rfl, hw⟩ | ⟨w, rfl, hw⟩
  · cases w with
    | nil =>
      obtain ⟨rfl, rfl⟩ := List.cons.inj hw
      rw [List.append_nil] at hf₂
      exact (runOf_distinct r ∅ pre₁ s₁).eq_of_same_cell hf₁ hf₂ ht he
    | cons x mid =>
      obtain ⟨rfl, rfl⟩ := List.cons.inj hw
      subst hS₁
      exact absurd hturn (turnOf_ne_of_found hS hf₁ hf₂ he ht)
  · cases w with
    | nil =>
      obtain ⟨rfl, rfl⟩ := List.cons.inj hw
      rw [List.append_nil] at hf₁
      exact (runOf_distinct r ∅ pre₂ _).eq_of_same_cell hf₁ hf₂ ht he
    | cons x mid =>
      obtain ⟨rfl, rfl⟩ := List.cons.inj hw
      subst hS₂
      have hne := turnOf_ne_of_found hS hf₂ hf₁ he.symm (he ▸ ht)
      rw [← he] at hne
      exact absurd hturn.symm hne

/-! ## A single approach is found -/

/-- The turn of a cell is not between two searches that it does not lie between. -/
theorem turnOf_eq_of_not_mem {pre mid post : List α} {s₁ s₂ x : α}
    (hnd : (pre ++ s₁ :: (mid ++ s₂ :: post)).Nodup) (h₁ : x ≠ s₁) (h₂ : x ≠ s₂)
    (hmid : x ∉ mid) :
    turnOf (pre ++ s₁ :: (mid ++ s₂ :: post)) s₁ x =
      turnOf (pre ++ s₁ :: (mid ++ s₂ :: post)) s₂ x := by
  have hassoc : pre ++ s₁ :: (mid ++ s₂ :: post) = (pre ++ s₁ :: mid) ++ s₂ :: post := by simp
  unfold turnOf
  rw [idxOf_middle hnd, idxOf_second hnd]
  by_cases hpre : x ∈ pre
  · have hi : (pre ++ s₁ :: (mid ++ s₂ :: post)).idxOf x < pre.length := by
      rw [List.idxOf_append, if_pos hpre]
      exact List.idxOf_lt_length_of_mem hpre
    rw [Nat.compare_eq_gt.mpr hi, Nat.compare_eq_gt.mpr (by omega)]
  · have hi : pre.length + (mid.length + 1) < (pre ++ s₁ :: (mid ++ s₂ :: post)).idxOf x := by
      rw [hassoc, List.idxOf_append, if_neg (by simp [hpre, h₁, hmid]), List.length_append,
        List.length_cons, List.idxOf_cons, beq_false_of_ne (Ne.symm h₂), cond_false]
      omega
    rw [Nat.compare_eq_lt.mpr (by omega), Nat.compare_eq_lt.mpr hi]

/-- An approach without a shortcut is expanded, unless a cell on it that touches a target was
    expanded on another way, on the same side of its own turn. -/
theorem found_of_not_hidden {r : Nat} {S : List α} (hS : S.Nodup) {pre post : List α} {s : α}
    (hSe : S = pre ++ s :: post) {a : Approach α} (ha : IsApproach N T r s a)
    (hchord : ∀ front y z u b v, a.1 :: a.2 = front ++ y :: z :: (u ++ b :: v) → y ∉ N b)
    (hfirst : ∀ y anc, y :: anc <:+ a.1 :: a.2 → Touches N T y → ∀ s' p,
      FoundFrom N T r S s' p → p.1 = y → turnOf S s' y = turnOf S s y → p = (y, anc)) :
    a ∈ runOf N T r ∅ pre s := by
  have hT : ¬ T s := ha.wall s (List.mem_of_mem_getLast? ha.start)
  have hrun : ∀ q, q ∈ runOf N T r ∅ pre s ↔
      q ∈ (explore N T r (insert s (marksAfter N T r ∅ pre)) s []).2 := by
    intro q
    rw [runOf, if_neg hT]
  have hmarks : ∀ x ∈ insert s (marksAfter N T r ∅ pre),
      Hidden N T (· ∈ marksAfter N T r ∅ pre) (s, []) x := by
    intro x hx
    rcases Finset.mem_insert.mp hx with rfl | hx
    · exact Or.inl (by simp)
    · exact Or.inr (Or.inr ⟨(marksAfter_origin hx).1, hx⟩)
  have hclosed := explore_closed r _ s [] _ (Finset.mem_insert_self s _) hmarks
  -- by induction on what is behind `y`, every approach that `a` goes through is expanded
  have hall : ∀ anc y, y :: anc <:+ a.1 :: a.2 → (y, anc) ∈ runOf N T r ∅ pre s := by
    intro anc
    induction anc with
    | nil =>
      intro y hy
      have hcut := ha.cut hy
      obtain rfl : y = s := by simpa using hcut.start
      exact (hrun _).mpr (explore_head hcut.cap _ y [])
    | cons z anc ih =>
      intro y hy
      have hcut := ha.cut hy
      have hz := ih z ((List.suffix_cons y _).trans hy)
      have hyz : y ∈ N z := (List.isChain_cons_cons.mp hcut.chain).1
      rcases hclosed (z, anc) ((hrun _).mp hz) y hyz (hcut.wall y (by simp))
        (by simpa using hcut.cap) with hfound | hbehind | ⟨b, hb, hyb⟩ | ⟨hty, hm | ⟨p, hp, hpy⟩⟩
      · exact (hrun _).mpr hfound
      · exact absurd hbehind (List.nodup_cons.mp hcut.simple).1
      · obtain ⟨front, hfront⟩ := hy
        obtain ⟨u, v, rfl⟩ := List.append_of_mem hb
        exact absurd hyb (hchord front y z u b v hfront.symm)
      · -- the approach that left the mark comes from another source
        obtain ⟨-, pre₁, s₁, post₁, rfl, hys₁, hpost₁, p, hp, hpy⟩ := marksAfter_origin hm
        have hys : y ≠ s := fun e => by
          have hlast := List.mem_of_mem_getLast? (hcut.cut (List.suffix_cons y _)).start
          exact (List.nodup_cons.mp hcut.simple).1 (e ▸ hlast)
        rw [List.append_assoc, List.cons_append] at hSe
        have hturn := turnOf_eq_of_not_mem (hSe ▸ hS) hys₁ hys hpost₁
        have heq := hfirst y (z :: anc) hy hty s₁ p ⟨pre₁, _, hSe, hp⟩ hpy (by rw [hSe]; exact hturn)
        have hstart := (runOf_approach hp (hpy ▸ hty)).start
        rw [heq] at hstart
        obtain rfl : s₁ = s := Option.some.inj (hstart.symm.trans hcut.start)
        rw [hSe] at hS
        exact absurd (by simp) (List.nodup_cons.mp (List.nodup_append.mp hS).2.1).1
      · have hp' := (hrun p).mpr hp
        rw [← hfirst y (z :: anc) hy hty s p ⟨pre, post, hSe, hp'⟩ hpy rfl]
        exact hp'
  exact hall a.2 a.1 List.suffix_rfl

/-- Every approach from the sources to a cell that touches a target is expanded. -/
def AllFound (N : α → List α) (T : α → Prop) [DecidablePred T] (r : Nat) (S : List α) : Prop :=
  ∀ s ∈ S, ∀ a, IsApproach N T r s a → Touches N T a.1 → FoundFrom N T r S s a

theorem allFound_iff {r : Nat} {S : List α} (hS : S.Nodup) :
    AllFound N T r S ↔ OneApproach N T r S := by
  constructor
  · intro h s₁ hs₁ s₂ hs₂ a₁ a₂ h₁ h₂ he ht hturn
    exact (h s₁ hs₁ a₁ h₁ ht).unique hS (h s₂ hs₂ a₂ h₂ (he ▸ ht)) he ht hturn
  · intro h s hs a ha ht
    obtain ⟨pre, post, hSe⟩ := List.append_of_mem hs
    refine ⟨pre, post, hSe, found_of_not_hidden hS hSe ha ?_ ?_⟩
    · -- a shortcut would be a second approach
      intro front y z u b v hfront hyb
      obtain ⟨a', ha', hcell, hlen⟩ := ha.shortcut hfront hyb
      have heq := h s hs s hs a' a ha' ha hcell (hcell ▸ ht) rfl
      rw [heq] at hlen
      omega
    · rintro y anc hy hty s' p hp rfl hturn
      obtain ⟨hs', hpa⟩ := hp.approach hty
      exact h s' hs' s hs p (p.1, anc) hpa (ha.cut hy) rfl hty hturn

/-! ## Completeness -/

section Complete

variable {neighbors : α → List α} {sources targets : FrozenSet α} {depthCap : Int}

/-- A path through an approach is recorded when the approach is expanded. -/
theorem goOn_mem_recordedPaths {s t : α} {a : Approach α}
    (ha : IsApproach neighbors (· ∈ targets) depthCap.toNat s a) (ht : t ∈ neighbors a.1)
    (hT : t ∈ targets) :
    goOn a t ∈ recordedPaths neighbors (· ∈ targets) depthCap.toNat ∅ sources.elems ↔
      FoundFrom neighbors (· ∈ targets) depthCap.toNat sources.elems s a := by
  rw [mem_recordedPaths]
  constructor
  · rintro (⟨x, -, -, he⟩ | ⟨pre, s', post, hS, a', ha', t', ht', hT', he⟩)
    · have hlen := congrArg List.length he
      simp [goOn] at hlen
    · obtain ⟨rfl, -⟩ := goOn_inj.mp he
      have hstart := (runOf_approach ha' ⟨t', ht', hT'⟩).start
      obtain rfl : s = s' := Option.some.inj (ha.start.symm.trans hstart)
      exact ⟨pre, post, hS, ha'⟩
  · rintro ⟨pre, post, hS, ha'⟩
    exact Or.inr ⟨pre, s, post, hS, a, ha', t, ht, hT, rfl⟩

/-- The corridors through approaches, one by one. -/
theorem corridors_recorded_iff :
    (∀ p, IsCorridor neighbors sources targets depthCap p →
      p ∈ recordedPaths neighbors (· ∈ targets) depthCap.toNat ∅ sources.elems) ↔
    AllFound neighbors (· ∈ targets) depthCap.toNat sources.elems := by
  constructor
  · rintro h s hs a ha ⟨t, ht, hT⟩
    exact (goOn_mem_recordedPaths ha ht hT).mp (h _ (isCorridor_goOn hs ha ht hT))
  · intro h p hp
    rcases isCorridor_iff.mp hp with ⟨s, hs, hT, -, rfl⟩ | ⟨s, hs, a, ha, t, ht, hT, rfl⟩
    · exact mem_recordedPaths.mpr (Or.inl ⟨s, hs, hT, rfl⟩)
    · exact (goOn_mem_recordedPaths ha ht hT).mpr (h s hs a ha ⟨t, ht, hT⟩)

/-- Below the hard cap nothing is cut off. -/
theorem enumerateSimplePaths_eq_of_lt {hardCap : Int}
    (h : ((enumerateSimplePaths neighbors sources targets depthCap hardCap).length : Int) <
      hardCap) :
    enumerateSimplePaths neighbors sources targets depthCap hardCap =
      recordedPaths neighbors (· ∈ targets) depthCap.toNat ∅ sources.elems := by
  have heq := enumerateSimplePaths_eq neighbors sources targets depthCap hardCap (by omega)
  rw [heq, List.length_take] at h
  rw [heq]
  exact List.take_of_length_le (by omega)

end Complete

/-- Below its hard cap `_enumerate_simple_paths` returns every corridor exactly when no cell that
    touches a target has two approaches on one side of its own turn. -/
theorem enumerateSimplePaths_complete_iff (neighbors : α → List α) (sources targets : FrozenSet α)
    (depthCap hardCap : Int)
    (h : ((enumerateSimplePaths neighbors sources targets depthCap hardCap).length : Int) <
      hardCap) :
    (∀ p, IsCorridor neighbors sources targets depthCap p →
      p ∈ enumerateSimplePaths neighbors sources targets depthCap hardCap) ↔
    OneApproach neighbors (· ∈ targets) depthCap.toNat sources.elems := by
  rw [enumerateSimplePaths_eq_of_lt h, corridors_recorded_iff]
  exact allFound_iff sources.nodup

theorem enumerateSimplePaths_complete_iff_square :
    (∀ p, IsCorridor (neighborsOf squareItems) squareStart squareGoal 10 p →
      p ∈ enumerateSimplePaths (neighborsOf squareItems) squareStart squareGoal 10 10000) ↔
    OneApproach (neighborsOf squareItems) (· ∈ squareGoal) 10 [⟨0, 0, 0⟩] :=
  enumerateSimplePaths_complete_iff (neighborsOf squareItems) squareStart squareGoal 10 10000
    (by decide +kernel)

/-- Round the square there are two ways to the goal; the way pushed first is lost, because the
    corner before the goal is marked when its turn comes. -/
theorem enumerateSimplePaths_square_incomplete :
    ((enumerateSimplePaths (neighborsOf squareItems) squareStart squareGoal 10 10000).length :
      Int) < 10000 ∧
    ¬ ∀ p, IsCorridor (neighborsOf squareItems) squareStart squareGoal 10 p →
      p ∈ enumerateSimplePaths (neighborsOf squareItems) squareStart squareGoal 10 10000 := by
  refine ⟨by decide +kernel, fun h => ?_⟩
  have hway : IsCorridor (neighborsOf squareItems) squareStart squareGoal 10
      [⟨0, 0, 0⟩, ⟨1, 0, 0⟩, ⟨1, 0, 1⟩, ⟨2, 0, 1⟩] := by
    refine ⟨⟨⟨0, 0, 0⟩, by decide, rfl⟩, ⟨⟨2, 0, 1⟩, by decide, rfl⟩, ?_, ?_, ?_, ?_⟩ <;> decide
  have hlost := h _ hway
  revert hlost
  decide +kernel

end TraxMania.Corridor
