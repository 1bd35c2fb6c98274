import TraxMania.Lib.SortBy
import Mathlib.Order.Lex

/-
  A shortlist: only some entries of a list are asked for a value. Asked entries of a value above
  zero stand first, by value; behind them the entries that were not asked, in the order they had;
  last the asked entries of value zero. When the entry at a place is the one that would be there if
  all had been asked.

  Nothing here is about a program in particular.
-/

namespace Lib.Shortlist

variable {α ν μ κ : Type*}

/-! ## Counting -/

/-- More entries pass the weaker test, when some entry passes it alone. -/
theorem countP_lt_countP {xs : List α} {p q : α → Bool} (hpq : ∀ c ∈ xs, p c = true → q c = true)
    {d : α} (hd : d ∈ xs) (hq : q d = true) (hp : p d = false) : xs.countP p < xs.countP q := by
  have hsplit := List.countP_eq_countP_filter_add xs q p
  have hin : (xs.filter p).countP q = xs.countP p := by
    rw [List.countP_filter]
    refine List.countP_congr fun c hc => ?_
    rw [Bool.and_eq_true, and_iff_right_iff_imp]
    exact hpq c hc
  have hout : 0 < (xs.filter fun c => !p c).countP q := by
    rw [List.countP_pos_iff]
    exact ⟨d, List.mem_filter.mpr ⟨hd, by rw [hp]; rfl⟩, hq⟩
  omega

theorem countP_or_of_disjoint {xs : List α} {p q : α → Bool}
    (h : ∀ c ∈ xs, p c = true → q c = false) :
    (xs.countP fun c => p c || q c) = xs.countP p + xs.countP q := by
  induction xs with
  | nil => rfl
  | cons a xs ih =>
    have htail := ih fun c hc => h c (List.mem_cons_of_mem a hc)
    have hhead := h a List.mem_cons_self
    rw [List.countP_cons, List.countP_cons, List.countP_cons, htail]
    cases hp : p a with
    | false =>
      rw [Bool.false_or]
      simp
      omega
    | true =>
      rw [hhead hp]
      simp
      omega

section Rank

variable [LinearOrder κ]

/-- The number of entries before `p`. -/
def rank (key : α → κ) (xs : List α) (p : α) : Nat := xs.countP fun c => decide (key c < key p)

theorem rank_lt_rank {key : α → κ} {xs : List α} {p q : α} (hp : p ∈ xs) (h : key p < key q) :
    rank key xs p < rank key xs q := by
  refine countP_lt_countP (fun c _ hc => ?_) hp (decide_eq_true h) (by simp)
  exact decide_eq_true (lt_trans (of_decide_eq_true hc) h)

theorem key_eq_of_rank_eq {key : α → κ} {xs : List α} {p q : α} (hp : p ∈ xs) (hq : q ∈ xs)
    (h : rank key xs p = rank key xs q) : key p = key q := by
  rcases lt_trichotomy (key p) (key q) with hlt | heq | hlt
  · have := rank_lt_rank hp hlt
    omega
  · exact heq
  · have := rank_lt_rank hq hlt
    omega

/-- Every place is somebody's. -/
theorem exists_rank_eq {key : α → κ} {xs : List α} (hnodup : (xs.map key).Nodup) {j : Nat}
    (hj : j < xs.length) : ∃ p ∈ xs, rank key xs p = j := by
  have hlen : j < (SortBy.sortBy key xs).length := by
    rw [(SortBy.sortBy_perm key xs).length_eq]
    exact hj
  exact ⟨_, (SortBy.getElem?_sortBy_iff hnodup _ j).mp (List.getElem?_eq_getElem hlen)⟩

end Rank

/-! ## The two orders -/

theorem rank_lt_length {κ : Type*} [LinearOrder κ] {key : α → κ} {xs : List α} {p : α}
    (hp : p ∈ xs) : rank key xs p < xs.length := by
  rw [← List.countP_true]
  exact countP_lt_countP (fun _ _ _ => rfl) hp rfl (by simp)

section Orders

variable [LinearOrder ν] [LinearOrder μ]

variable (asked : α → Bool) (val : α → ν) (zero : ν) (key : α → μ)

/-- Asked above zero, not asked, asked and zero. -/
def tier (c : α) : Nat := if asked c then if val c = zero then 2 else 0 else 1

/-- The order when some are asked. -/
def shortKey (c : α) : Nat ×ₗ νᵒᵈ ×ₗ μ :=
  toLex (tier asked val zero c,
    toLex (OrderDual.toDual (if asked c then val c else zero), key c))

/-- The order when all are asked. -/
def fullKey (c : α) : νᵒᵈ ×ₗ μ := toLex (OrderDual.toDual (val c), key c)

/-- The entries that are asked and above zero. -/
def scoredCount (xs : List α) : Nat := xs.countP fun c => decide (tier asked val zero c = 0)

/-- The entries that are not asked. -/
def unaskedCount (xs : List α) : Nat := xs.countP fun c => !asked c

/-- Asking the others changes nothing at the place `j`: none of them would pass the entry there,
when it is asked and above zero; it would stay there, when it is one of them; and none of them
would be zero, when the entry there is. -/
structure Settled (xs : List α) (j : Nat) : Prop where
  scored : j < scoredCount asked val zero xs → ∀ d ∈ xs, asked d = false →
    j < xs.countP fun c => asked c && decide (val d ≤ val c)
  unasked : ∀ d ∈ xs, asked d = false →
    scoredCount asked val zero xs + (xs.countP fun c => !asked c && decide (key c < key d)) = j →
      rank (fullKey val key) xs d = j
  zeros : scoredCount asked val zero xs + unaskedCount asked xs ≤ j → ∀ d ∈ xs, asked d = false →
    val d ≠ zero

variable {asked val zero key}

theorem fullKey_lt_iff {c p : α} : fullKey val key c < fullKey val key p ↔
    val p < val c ∨ val c = val p ∧ key c < key p := by
  unfold fullKey
  rw [Prod.Lex.toLex_lt_toLex]
  exact Iff.rfl

theorem shortKey_lt_iff {c p : α} : shortKey asked val zero key c < shortKey asked val zero key p ↔
    tier asked val zero c < tier asked val zero p ∨
      tier asked val zero c = tier asked val zero p ∧
        ((if asked p then val p else zero) < (if asked c then val c else zero) ∨
          (if asked c then val c else zero) = (if asked p then val p else zero) ∧
            key c < key p) := by
  unfold shortKey
  rw [Prod.Lex.toLex_lt_toLex, Prod.Lex.toLex_lt_toLex]
  exact Iff.rfl

variable (asked val zero) in
theorem tier_cases (c : α) :
    tier asked val zero c = 0 ∧ asked c = true ∧ val c ≠ zero ∨
      tier asked val zero c = 1 ∧ asked c = false ∨
      tier asked val zero c = 2 ∧ asked c = true ∧ val c = zero := by
  unfold tier
  by_cases ha : asked c = true
  · by_cases hv : val c = zero
    · exact Or.inr (Or.inr ⟨by rw [if_pos ha, if_pos hv], ha, hv⟩)
    · exact Or.inl ⟨by rw [if_pos ha, if_neg hv], ha, hv⟩
  · exact Or.inr (Or.inl ⟨by rw [if_neg ha], Bool.eq_false_iff.mpr ha⟩)

theorem asked_of_tier_zero {c : α} (h : tier asked val zero c = 0) :
    asked c = true ∧ val c ≠ zero := by
  rcases tier_cases asked val zero c with hc | hc | hc
  · exact hc.2
  · omega
  · omega

theorem asked_of_tier_two {c : α} (h : tier asked val zero c = 2) :
    asked c = true ∧ val c = zero := by
  rcases tier_cases asked val zero c with hc | hc | hc
  · omega
  · omega
  · exact hc.2

/-! ## Who stands before whom -/

theorem shortKey_lt_of_scored {c p : α} (hp : tier asked val zero p = 0) :
    shortKey asked val zero key c < shortKey asked val zero key p ↔
      tier asked val zero c = 0 ∧ fullKey val key c < fullKey val key p := by
  rw [shortKey_lt_iff, fullKey_lt_iff, hp, if_pos (asked_of_tier_zero hp).1]
  rcases tier_cases asked val zero c with hc | hc | hc
  · rw [if_pos hc.2.1, hc.1]
    simp
  · rw [hc.1]
    simp
  · rw [hc.1]
    simp

theorem shortKey_lt_of_unasked {c p : α} (hp : asked p = false) :
    shortKey asked val zero key c < shortKey asked val zero key p ↔
      tier asked val zero c = 0 ∨ asked c = false ∧ key c < key p := by
  have htier : tier asked val zero p = 1 := by
    unfold tier
    rw [hp]
    rfl
  rw [shortKey_lt_iff, htier, hp]
  rcases tier_cases asked val zero c with hc | hc | hc
  · rw [hc.1]
    simp
  · rw [hc.1, hc.2]
    simp
  · rw [hc.1, hc.2.1]
    simp

theorem shortKey_lt_of_zero {c p : α} (hp : tier asked val zero p = 2) :
    shortKey asked val zero key c < shortKey asked val zero key p ↔
      tier asked val zero c = 0 ∨ asked c = false ∨
        tier asked val zero c = 2 ∧ key c < key p := by
  obtain ⟨hasked, hval⟩ := asked_of_tier_two hp
  rw [shortKey_lt_iff, hp, if_pos hasked, hval]
  rcases tier_cases asked val zero c with hc | hc | hc
  · rw [hc.1]
    simp
  · rw [hc.1, hc.2]
    simp
  · rw [hc.1, if_pos hc.2.1, hc.2.1, hc.2.2]
    simp

/-! ## Places -/

variable (asked val zero key) in
/-- The list a shortlist is taken of: no value is below zero, the order tells the entries apart and
puts the asked ones first. -/
structure Shortlisted (xs : List α) : Prop where
  zero_le : ∀ c ∈ xs, zero ≤ val c
  nodup : (xs.map key).Nodup
  first : ∀ c ∈ xs, ∀ d ∈ xs, asked c = true → asked d = false → key c < key d

theorem rank_shortKey_of_unasked {xs : List α} {p : α} (hp : asked p = false) :
    rank (shortKey asked val zero key) xs p =
      scoredCount asked val zero xs + xs.countP fun c => !asked c && decide (key c < key p) := by
  unfold rank scoredCount
  rw [← countP_or_of_disjoint]
  · refine List.countP_congr fun c _ => ?_
    rw [decide_eq_true_iff, shortKey_lt_of_unasked hp]
    simp
  · intro c _ hc
    rw [(asked_of_tier_zero (of_decide_eq_true hc)).1]
    rfl

variable (asked val zero key) in
/-- The three stretches of the order. -/
theorem rank_shortKey_bounds {xs : List α} {p : α} (hp : p ∈ xs) :
    (tier asked val zero p = 0 → rank (shortKey asked val zero key) xs p <
      scoredCount asked val zero xs) ∧
    (asked p = false → scoredCount asked val zero xs ≤ rank (shortKey asked val zero key) xs p ∧
      rank (shortKey asked val zero key) xs p <
        scoredCount asked val zero xs + unaskedCount asked xs) ∧
    (tier asked val zero p = 2 → scoredCount asked val zero xs + unaskedCount asked xs ≤
      rank (shortKey asked val zero key) xs p) := by
  refine ⟨fun h => ?_, fun h => ⟨?_, ?_⟩, fun h => ?_⟩
  · refine countP_lt_countP (fun c _ hc => ?_) hp (decide_eq_true h) (by simp)
    exact decide_eq_true ((shortKey_lt_of_scored h).mp (of_decide_eq_true hc)).1
  · rw [rank_shortKey_of_unasked h]
    omega
  · rw [rank_shortKey_of_unasked h]
    have hlt : (xs.countP fun c => !asked c && decide (key c < key p)) < unaskedCount asked xs := by
      refine countP_lt_countP (fun c _ hc => ?_) hp (by rw [h]; rfl) (by simp)
      exact (Bool.and_eq_true_iff.mp hc).1
    omega
  · unfold rank scoredCount unaskedCount
    rw [← countP_or_of_disjoint]
    · refine List.countP_mono_left fun c _ hc => ?_
      rw [decide_eq_true_iff, shortKey_lt_of_zero h]
      simp only [Bool.or_eq_true, decide_eq_true_eq, Bool.not_eq_true'] at hc
      rcases hc with hc | hc
      · exact Or.inl hc
      · exact Or.inr (Or.inl hc)
    · intro c _ hc
      rw [(asked_of_tier_zero (of_decide_eq_true hc)).1]
      rfl

/-! ## Asking the others as well -/

variable {xs : List α} {p : α} {j : Nat}

/-- An entry that is asked and above zero: those before it when all are asked are those before it
already, but for the unasked ones of a higher value. -/
theorem rank_fullKey_of_scored (hx : Shortlisted asked val zero key xs) (hp : p ∈ xs)
    (htier : tier asked val zero p = 0) :
    rank (fullKey val key) xs p = rank (shortKey asked val zero key) xs p ↔
      ∀ d ∈ xs, asked d = false → val d ≤ val p := by
  have hasked := asked_of_tier_zero htier
  have hshort : ∀ c ∈ xs, decide (shortKey asked val zero key c < shortKey asked val zero key p) =
      true → decide (fullKey val key c < fullKey val key p) = true := fun c _ hc =>
    decide_eq_true ((shortKey_lt_of_scored htier).mp (of_decide_eq_true hc)).2
  constructor
  · intro h d hd hdn
    by_contra hlt
    have hfull : fullKey val key d < fullKey val key p :=
      fullKey_lt_iff.mpr (Or.inl (not_le.mp hlt))
    have hnot : ¬ shortKey asked val zero key d < shortKey asked val zero key p := by
      rw [shortKey_lt_of_scored htier]
      intro h0
      rw [(asked_of_tier_zero h0.1).1] at hdn
      cases hdn
    have hmore := countP_lt_countP hshort hd (decide_eq_true hfull) (decide_eq_false hnot)
    unfold rank at h
    omega
  · intro h
    refine List.countP_congr fun c hc => ?_
    rw [decide_eq_true_iff, decide_eq_true_iff, shortKey_lt_of_scored htier]
    refine ⟨fun hlt => ⟨?_, hlt⟩, fun hlt => hlt.2⟩
    rw [fullKey_lt_iff] at hlt
    rcases tier_cases asked val zero c with ht | ht | ht
    · exact ht.1
    · have hle := h c hc ht.2
      rcases hlt with hlt | hlt
      · exact absurd hlt (not_lt.mpr hle)
      · exact absurd hlt.2 (not_lt.mpr (le_of_lt (hx.first p hp c hc hasked.1 ht.2)))
    · have hzero := hx.zero_le p hp
      rw [ht.2.2] at hlt
      rcases hlt with hlt | hlt
      · exact absurd hlt (not_lt.mpr hzero)
      · exact absurd hlt.1.symm hasked.2

/-- An entry that is asked and zero: those before it already are those before it when all are
asked, but for the unasked ones of value zero. -/
theorem rank_fullKey_of_zero (hx : Shortlisted asked val zero key xs) (hp : p ∈ xs)
    (htier : tier asked val zero p = 2) :
    rank (fullKey val key) xs p = rank (shortKey asked val zero key) xs p ↔
      ∀ d ∈ xs, asked d = false → val d ≠ zero := by
  have hasked := asked_of_tier_two htier
  have hfull : ∀ c ∈ xs, decide (fullKey val key c < fullKey val key p) = true →
      decide (shortKey asked val zero key c < shortKey asked val zero key p) = true := by
    intro c hc hlt
    rw [decide_eq_true_iff, fullKey_lt_iff, hasked.2] at hlt
    rw [decide_eq_true_iff, shortKey_lt_of_zero htier]
    rcases tier_cases asked val zero c with ht | ht | ht
    · exact Or.inl ht.1
    · exact Or.inr (Or.inl ht.2)
    · rw [ht.2.2] at hlt
      rcases hlt with hlt | hlt
      · exact absurd hlt (lt_irrefl zero)
      · exact Or.inr (Or.inr ⟨ht.1, hlt.2⟩)
  constructor
  · intro h d hd hdn hdz
    have hshort : shortKey asked val zero key d < shortKey asked val zero key p :=
      (shortKey_lt_of_zero htier).mpr (Or.inr (Or.inl hdn))
    have hnot : ¬ fullKey val key d < fullKey val key p := by
      rw [fullKey_lt_iff, hasked.2, hdz]
      intro hlt
      rcases hlt with hlt | hlt
      · exact lt_irrefl zero hlt
      · exact lt_asymm hlt.2 (hx.first p hp d hd hasked.1 hdn)
    have hmore := countP_lt_countP hfull hd (decide_eq_true hshort) (decide_eq_false hnot)
    unfold rank at h
    omega
  · intro h
    refine List.countP_congr fun c hc => ?_
    refine ⟨hfull c hc, fun hlt => ?_⟩
    rw [decide_eq_true_iff, shortKey_lt_of_zero htier] at hlt
    rw [decide_eq_true_iff, fullKey_lt_iff, hasked.2]
    have hpos : val c ≠ zero → zero < val c := fun hne =>
      lt_of_le_of_ne (hx.zero_le c hc) (Ne.symm hne)
    rcases hlt with ht | ht | ht
    · exact Or.inl (hpos (asked_of_tier_zero ht).2)
    · exact Or.inl (hpos (h c hc ht))
    · exact Or.inr ⟨(asked_of_tier_two ht.1).2, ht.2⟩

/-- An entry at the place `j` among the asked ones above zero is passed by nobody exactly when no
unasked entry has more than so many of them at or above it. -/
theorem passed_iff (hx : Shortlisted asked val zero key xs) (hp : p ∈ xs)
    (htier : tier asked val zero p = 0)
    (hj : rank (shortKey asked val zero key) xs p = j) {d : α} :
    val d ≤ val p ↔ j < xs.countP fun c => asked c && decide (val d ≤ val c) := by
  have hasked := asked_of_tier_zero htier
  constructor
  · intro hle
    rw [← hj]
    refine countP_lt_countP (fun c _ hc => ?_) hp (by simp [hasked.1, hle]) (by simp)
    obtain ⟨h0, hlt⟩ := (shortKey_lt_of_scored htier).mp (of_decide_eq_true hc)
    have hge : val p ≤ val c := by
      rcases fullKey_lt_iff.mp hlt with hlt | hlt
      · exact le_of_lt hlt
      · exact le_of_eq hlt.1.symm
    rw [Bool.and_eq_true, decide_eq_true_iff]
    exact ⟨(asked_of_tier_zero h0).1, le_trans hle hge⟩
  · intro hlt
    by_contra hle
    have hsub : (xs.countP fun c => asked c && decide (val d ≤ val c)) ≤
        rank (shortKey asked val zero key) xs p := by
      refine List.countP_mono_left fun c hc hcd => ?_
      rw [Bool.and_eq_true, decide_eq_true_iff] at hcd
      have hgt : val p < val c := lt_of_lt_of_le (not_le.mp hle) hcd.2
      have hne : val c ≠ zero := by
        intro h0
        rw [h0] at hgt
        exact absurd hgt (not_lt.mpr (hx.zero_le p hp))
      have h0 : tier asked val zero c = 0 := by
        unfold tier
        rw [if_pos hcd.1, if_neg hne]
      exact decide_eq_true
        ((shortKey_lt_of_scored htier).mpr ⟨h0, fullKey_lt_iff.mpr (Or.inl hgt)⟩)
    omega

omit [LinearOrder μ] in
theorem key_eq_of_shortKey_eq {c d : α}
    (h : shortKey asked val zero key c = shortKey asked val zero key d) : key c = key d :=
  congrArg (fun k => (ofLex (ofLex k).2).2) h

theorem key_inj (hx : Shortlisted asked val zero key xs) {c d : α} (hc : c ∈ xs) (hd : d ∈ xs)
    (h : shortKey asked val zero key c = shortKey asked val zero key d) : c = d :=
  List.inj_on_of_nodup_map hx.nodup hc hd (key_eq_of_shortKey_eq h)

/-- The entry at a place stays there exactly when the place is settled. -/
theorem rank_fullKey_iff (hx : Shortlisted asked val zero key xs) (hp : p ∈ xs)
    (hj : rank (shortKey asked val zero key) xs p = j) :
    rank (fullKey val key) xs p = j ↔ Settled asked val zero key xs j := by
  have hbounds := rank_shortKey_bounds asked val zero key hp
  rw [hj] at hbounds
  obtain ⟨hscored, hunasked, hzero⟩ := hbounds
  have hdecode : ∀ d ∈ xs, asked d = false →
      (scoredCount asked val zero xs + xs.countP fun c => !asked c && decide (key c < key d)) = j →
      d = p := by
    intro d hd hdn hdj
    rw [← rank_shortKey_of_unasked hdn, ← hj] at hdj
    exact key_inj hx hd hp (key_eq_of_rank_eq hd hp hdj)
  rcases tier_cases asked val zero p with h | h | h
  · -- among the asked ones above zero
    have hlt := hscored h.1
    have hiff := rank_fullKey_of_scored hx hp h.1
    rw [hj] at hiff
    rw [hiff]
    constructor
    · intro hall
      refine ⟨fun _ d hd hdn => (passed_iff hx hp h.1 hj).mp (hall d hd hdn), ?_, ?_⟩
      · intro d hd hdn hdj
        omega
      · intro hge
        omega
    · intro hs d hd hdn
      exact (passed_iff hx hp h.1 hj).mpr (hs.scored hlt d hd hdn)
  · -- among the unasked ones
    have hrange := hunasked h.2
    have hplace : rank (shortKey asked val zero key) xs p =
        scoredCount asked val zero xs + xs.countP fun c => !asked c && decide (key c < key p) :=
      rank_shortKey_of_unasked h.2
    constructor
    · intro hfull
      refine ⟨fun hlt => ?_, ?_, fun hge => ?_⟩
      · omega
      · intro d hd hdn hdj
        rw [hdecode d hd hdn hdj]
        exact hfull
      · omega
    · intro hs
      refine hs.unasked p hp h.2 ?_
      rw [← hplace]
      exact hj
  · -- among the asked ones of value zero
    have hge := hzero h.1
    have hiff := rank_fullKey_of_zero hx hp h.1
    rw [hj] at hiff
    rw [hiff]
    constructor
    · intro hall
      refine ⟨fun hlt => ?_, ?_, fun _ => hall⟩
      · omega
      · intro d hd hdn hdj
        rw [hdecode d hd hdn hdj, h.2.1] at hdn
        cases hdn
    · intro hs
      exact hs.zeros hge

/-- The same entry is at the place `j` in both orders exactly when the place is settled. -/
theorem same_place_iff (hx : Shortlisted asked val zero key xs) (hj : j < xs.length) :
    (∃ p ∈ xs, rank (shortKey asked val zero key) xs p = j ∧ rank (fullKey val key) xs p = j) ↔
      Settled asked val zero key xs j := by
  have hnodup : (xs.map (shortKey asked val zero key)).Nodup :=
    SortBy.nodup_map_of_key hx.nodup key_eq_of_shortKey_eq
  constructor
  · intro h
    obtain ⟨p, hp, hshort, hfull⟩ := h
    exact (rank_fullKey_iff hx hp hshort).mp hfull
  · intro hs
    obtain ⟨p, hp, hshort⟩ := exists_rank_eq hnodup hj
    exact ⟨p, hp, hshort, (rank_fullKey_iff hx hp hshort).mpr hs⟩

/-- Where all are asked, the shortlist is in the order of all values. -/
theorem shortKey_all_lt_iff {c d : α} (hc : zero ≤ val c) (hd : zero ≤ val d) :
    shortKey (fun _ => true) val zero key c < shortKey (fun _ => true) val zero key d ↔
      fullKey val key c < fullKey val key d := by
  rcases tier_cases (fun _ => true) val zero d with h | h | h
  · rw [shortKey_lt_of_scored h.1]
    refine ⟨fun hlt => hlt.2, fun hlt => ⟨?_, hlt⟩⟩
    rcases tier_cases (fun _ => true) val zero c with h' | h' | h'
    · exact h'.1
    · cases h'.2
    · rw [fullKey_lt_iff, h'.2.2] at hlt
      rcases hlt with hlt | hlt
      · exact absurd hlt (not_lt.mpr hd)
      · exact absurd hlt.1.symm h.2.2
  · cases h.2
  · rw [shortKey_lt_of_zero h.1, fullKey_lt_iff, h.2.2]
    rcases tier_cases (fun _ => true) val zero c with h' | h' | h'
    · have hpos : zero < val c := lt_of_le_of_ne hc (Ne.symm h'.2.2)
      exact ⟨fun _ => Or.inl hpos, fun _ => Or.inl h'.1⟩
    · cases h'.2
    · rw [h'.1, h'.2.2]
      simp

/-! ## Behind a leading key -/

section Lead

variable [LinearOrder κ] {β : Type*} [LinearOrder β] {lead : α → β}

/-- The order by `lead` and then by `key`. -/
def led (lead : α → β) (key : α → κ) (c : α) : β ×ₗ κ := toLex (lead c, key c)

/-- The entries with the lead of `p`. -/
def level (lead : α → β) (xs : List α) (p : α) : List α := xs.filter fun c => decide (lead c = lead p)

omit [LinearOrder ν] [LinearOrder μ] in
/-- Behind the entries of a smaller lead, an entry stands in its level. -/
theorem rank_led (key : α → κ) (xs : List α) (p : α) :
    rank (led lead key) xs p = rank lead xs p + rank key (level lead xs p) p := by
  unfold rank level
  rw [List.countP_filter, ← countP_or_of_disjoint]
  · refine List.countP_congr fun c _ => ?_
    unfold led
    rw [decide_eq_true_iff, Prod.Lex.toLex_lt_toLex]
    simp only [Bool.or_eq_true, Bool.and_eq_true, decide_eq_true_eq]
    tauto
  · intro c _ hc
    have hne := ne_of_lt (of_decide_eq_true hc)
    rw [decide_eq_false hne, Bool.and_false]

omit [LinearOrder ν] [LinearOrder μ] [LinearOrder κ] in
theorem mem_level {xs : List α} {p c : α} : c ∈ level lead xs p ↔ c ∈ xs ∧ lead c = lead p := by
  unfold level
  rw [List.mem_filter, decide_eq_true_iff]

omit [LinearOrder ν] [LinearOrder μ] in
/-- A place belongs to a level, whatever the order in the levels. -/
theorem lead_le_of_rank_le {γ : Type*} [LinearOrder γ] {key : α → κ} {key' : α → γ} {xs : List α}
    {p q : α} (hp : p ∈ xs) (h : rank (led lead key') xs q ≤ rank (led lead key) xs p) :
    lead q ≤ lead p := by
  by_contra hlt
  have hbefore : rank (led lead key) xs p < rank lead xs q := by
    refine countP_lt_countP (fun c _ hc => ?_) hp (decide_eq_true (not_le.mp hlt)) (by simp)
    have hle : lead c ≤ lead p := by
      rcases (Prod.Lex.toLex_lt_toLex.mp (of_decide_eq_true hc)) with h | h
      · exact le_of_lt h
      · exact le_of_eq h.1
    exact decide_eq_true (lt_of_le_of_lt hle (not_le.mp hlt))
  have hafter : rank (led lead key') xs q = rank lead xs q + rank key' (level lead xs q) q :=
    rank_led key' xs q
  omega

omit [LinearOrder ν] [LinearOrder μ] in
/-- Entries of one lead stand in one level. -/
theorem rank_led_of_lead_eq {key : α → κ} {xs : List α} {p q : α} (h : lead q = lead p) :
    rank (led lead key) xs q = rank lead xs p + rank key (level lead xs p) q := by
  have hrank : rank lead xs q = rank lead xs p := by
    unfold rank
    rw [h]
  have hlevel : level lead xs q = level lead xs p := by
    unfold level
    rw [h]
  rw [rank_led, hrank, hlevel]

omit [LinearOrder κ] in
/-- A level of a list is the list of a shortlist, where the asked ones come first in it. -/
theorem shortlisted_level (hnodup : (xs.map key).Nodup) (hzero : ∀ c ∈ xs, zero ≤ val c)
    (hfirst : ∀ c ∈ xs, ∀ d ∈ xs, lead c = lead d → asked c = true → asked d = false →
      key c < key d) :
    Shortlisted asked val zero key (level lead xs p) := by
  refine ⟨fun c hc => hzero c (mem_level.mp hc).1, ?_, ?_⟩
  · exact (List.filter_sublist.map key).nodup hnodup
  · intro c hc d hd
    have hsame := (mem_level.mp hc).2.trans (mem_level.mp hd).2.symm
    exact hfirst c (mem_level.mp hc).1 d (mem_level.mp hd).1 hsame

omit [LinearOrder ν] [LinearOrder μ] [LinearOrder κ] [LinearOrder β] in
theorem led_nodup (lead : α → β) {key : α → κ} {xs : List α} (h : (xs.map key).Nodup) :
    (xs.map (led lead key)).Nodup :=
  SortBy.nodup_map_of_key h fun heq => congrArg (fun k => (ofLex k).2) heq

omit [LinearOrder κ] in
/-- A list sorted by its lead and then as a shortlist has the same entry at a place as the list in
which all entries are asked exactly when the place is settled in its level. -/
theorem getElem?_shortlist_iff (hnodup : (xs.map key).Nodup) (hzero : ∀ c ∈ xs, zero ≤ val c)
    (hfirst : ∀ c ∈ xs, ∀ d ∈ xs, lead c = lead d → asked c = true → asked d = false →
      key c < key d)
    {k : Nat} (hp : (SortBy.sortBy (led lead key) xs)[k]? = some p) :
    (SortBy.sortBy (led lead (shortKey asked val zero key)) xs)[k]? =
        (SortBy.sortBy (led lead (fullKey val key)) xs)[k]? ↔
      Settled asked val zero key (level lead xs p) (k - rank lead xs p) := by
  obtain ⟨hpmem, hpk⟩ := (SortBy.getElem?_sortBy_iff (led_nodup lead hnodup) p k).mp hp
  have hpk' : rank (led lead key) xs p = k := hpk
  have hplace : rank lead xs p + rank key (level lead xs p) p = k := by
    rw [← hpk']
    exact (rank_led key xs p).symm
  have hshortNodup : (xs.map (shortKey asked val zero key)).Nodup :=
    SortBy.nodup_map_of_key hnodup key_eq_of_shortKey_eq
  have hfullNodup : (xs.map (fullKey val key)).Nodup :=
    SortBy.nodup_map_of_key hnodup fun h => congrArg (fun k => (ofLex k).2) h
  have hshort := fun q => SortBy.getElem?_sortBy_iff (led_nodup lead hshortNodup) q k
  have hfull := fun q => SortBy.getElem?_sortBy_iff (led_nodup lead hfullNodup) q k
  have hx := shortlisted_level (p := p) hnodup hzero hfirst
  have hj : k - rank lead xs p < (level lead xs p).length := by
    have hlt : rank key (level lead xs p) p < (level lead xs p).length :=
      rank_lt_length (mem_level.mpr ⟨hpmem, rfl⟩)
    omega
  rw [← same_place_iff hx hj]
  constructor
  · intro h
    have hlen : k < (SortBy.sortBy (led lead (shortKey asked val zero key)) xs).length := by
      rw [(SortBy.sortBy_perm _ xs).length_eq, ← (SortBy.sortBy_perm (led lead key) xs).length_eq]
      exact (List.getElem?_eq_some_iff.mp hp).1
    obtain ⟨q, hq⟩ : ∃ q, (SortBy.sortBy (led lead (shortKey asked val zero key)) xs)[k]? = some q :=
      ⟨_, List.getElem?_eq_getElem hlen⟩
    obtain ⟨hqmem, hqs⟩ := (hshort q).mp hq
    obtain ⟨-, hqf⟩ := (hfull q).mp (h.symm.trans hq)
    have hqs' : rank (led lead (shortKey asked val zero key)) xs q = k := hqs
    have hqf' : rank (led lead (fullKey val key)) xs q = k := hqf
    have hlead : lead q = lead p := by
      refine le_antisymm ?_ ?_
      · exact lead_le_of_rank_le hpmem (le_of_eq (hqs'.trans hpk'.symm))
      · exact lead_le_of_rank_le hqmem (le_of_eq (hpk'.trans hqs'.symm))
    rw [rank_led_of_lead_eq hlead] at hqs' hqf'
    exact ⟨q, mem_level.mpr ⟨hqmem, hlead⟩, by omega, by omega⟩
  · intro h
    obtain ⟨q, hq, hqs, hqf⟩ := h
    obtain ⟨hqmem, hlead⟩ := mem_level.mp hq
    have hs : rank (led lead (shortKey asked val zero key)) xs q = k := by
      rw [rank_led_of_lead_eq hlead]
      omega
    have hf : rank (led lead (fullKey val key)) xs q = k := by
      rw [rank_led_of_lead_eq hlead]
      omega
    rw [(hshort q).mpr ⟨hqmem, hs⟩, (hfull q).mpr ⟨hqmem, hf⟩]

end Lead

end Orders

end Lib.Shortlist
