import Mathlib.Data.List.Sort
import Mathlib.Data.Prod.Lex

/-
  Sorting by a key, as Python's `sorted(xs, key=…)`: entries with equal keys stay in their order.

  Nothing here is about a program in particular.
-/

namespace Lib.SortBy

variable {α κ : Type*} [LinearOrder κ]

/-- `sorted(xs, key=key)`. -/
def sortBy (key : α → κ) (xs : List α) : List α := xs.insertionSort fun a b => key a ≤ key b

instance total_le (key : α → κ) : Std.Total fun a b => key a ≤ key b :=
  ⟨fun a b => le_total (key a) (key b)⟩

instance isTrans_le (key : α → κ) : IsTrans α fun a b => key a ≤ key b :=
  ⟨fun _ _ _ hab hbc => le_trans hab hbc⟩

theorem sortBy_perm (key : α → κ) (xs : List α) : (sortBy key xs).Perm xs :=
  List.perm_insertionSort _ xs

theorem mem_sortBy (key : α → κ) (xs : List α) (a : α) : a ∈ sortBy key xs ↔ a ∈ xs :=
  (sortBy_perm key xs).mem_iff

theorem sortBy_pairwise (key : α → κ) (xs : List α) :
    (sortBy key xs).Pairwise fun a b => key a ≤ key b :=
  List.pairwise_insertionSort _ xs

theorem sortBy_eq_self {key : α → κ} {xs : List α} (h : xs.Pairwise fun a b => key a ≤ key b) :
    sortBy key xs = xs :=
  h.insertionSort_eq

/-- The first entry after sorting has the least key. -/
theorem head?_sortBy {key : α → κ} {xs : List α} {a : α} (h : (sortBy key xs).head? = some a) :
    a ∈ xs ∧ ∀ b ∈ xs, key a ≤ key b := by
  have hmem : a ∈ sortBy key xs := List.mem_of_mem_head? h
  refine ⟨(mem_sortBy key xs a).mp hmem, fun b hb => ?_⟩
  have hsorted := sortBy_pairwise key xs
  have hb' := (mem_sortBy key xs b).mpr hb
  obtain ⟨rest, hrest⟩ : ∃ rest, sortBy key xs = a :: rest := List.head?_eq_some_iff.mp h
  rw [hrest] at hsorted hb'
  rcases List.mem_cons.mp hb' with rfl | hb'
  · exact le_refl _
  · exact (List.pairwise_cons.mp hsorted).1 b hb'

/-- An entry whose key is the only least one comes first. -/
theorem head?_sortBy_eq {key : α → κ} {xs : List α} {a : α} (ha : a ∈ xs)
    (hleast : ∀ b ∈ xs, key a ≤ key b) (hinj : ∀ b ∈ xs, key b = key a → b = a) :
    (sortBy key xs).head? = some a := by
  cases hb : (sortBy key xs).head? with
  | none =>
    rw [List.head?_eq_none_iff] at hb
    have h := (mem_sortBy key xs a).mpr ha
    simp [hb] at h
  | some b =>
    obtain ⟨hbx, hb⟩ := head?_sortBy hb
    rw [hinj b hbx (le_antisymm (hb a ha) (hleast b hbx))]

/-- Sorting the images is sorting by the key of the image. -/
theorem sortBy_map {β : Type*} (key : α → κ) (f : β → α) (xs : List β) :
    sortBy key (xs.map f) = (sortBy (fun b => key (f b)) xs).map f := by
  unfold sortBy
  exact (List.map_insertionSort (fun a b : β => key (f a) ≤ key (f b)) (fun a b => key a ≤ key b) f
    xs fun a _ b _ => Iff.rfl).symm

/-! ## Entries with equal keys -/

theorem filter_orderedInsert (key : α → κ) (v : κ) (a : α) (xs : List α) :
    (xs.orderedInsert (fun a b => key a ≤ key b) a).filter (fun b => decide (key b = v)) =
      (a :: xs).filter fun b => decide (key b = v) := by
  induction xs with
  | nil => rfl
  | cons b xs ih =>
    by_cases hab : key a ≤ key b
    · rw [List.orderedInsert_cons_of_le _ xs hab]
    · have hne : key a = v → key b ≠ v := by
        intro ha hb
        exact hab (le_of_eq (ha.trans hb.symm))
      rw [List.orderedInsert_of_not_le _ xs hab, List.filter_cons, ih]
      by_cases hb : key b = v
      · have ha : key a ≠ v := fun ha => hne ha hb
        simp [hb, ha]
      · simp [List.filter_cons, hb]

/-- Sorting keeps the entries of one key in their order. -/
theorem filter_sortBy (key : α → κ) (v : κ) (xs : List α) :
    (sortBy key xs).filter (fun b => decide (key b = v)) =
      xs.filter fun b => decide (key b = v) := by
  induction xs with
  | nil => rfl
  | cons a xs ih =>
    rw [sortBy, List.insertionSort_cons, filter_orderedInsert, List.filter_cons, List.filter_cons]
    rw [sortBy] at ih
    rw [ih]

/-- A sorted list is determined by its entries of each key. -/
theorem eq_of_filter_eq {key : α → κ} {xs ys : List α}
    (hx : xs.Pairwise fun a b => key a ≤ key b) (hy : ys.Pairwise fun a b => key a ≤ key b)
    (h : ∀ v, xs.filter (fun b => decide (key b = v)) = ys.filter fun b => decide (key b = v)) :
    xs = ys := by
  induction xs generalizing ys with
  | nil =>
    cases ys with
    | nil => rfl
    | cons b ys =>
      have hb := h (key b)
      simp at hb
  | cons a xs ih =>
    have ha : a ∈ ys := by
      have hmem : a ∈ (a :: xs).filter fun b => decide (key b = key a) := by simp
      rw [h (key a)] at hmem
      exact (List.mem_filter.mp hmem).1
    cases ys with
    | nil => cases ha
    | cons b ys =>
      have hb : b ∈ a :: xs := by
        have hmem : b ∈ (b :: ys).filter fun d => decide (key d = key b) := by simp
        rw [← h (key b)] at hmem
        exact (List.mem_filter.mp hmem).1
      have hle : key a ≤ key b := by
        rcases List.mem_cons.mp hb with rfl | hb
        · exact le_refl _
        · exact (List.pairwise_cons.mp hx).1 b hb
      have hge : key b ≤ key a := by
        rcases List.mem_cons.mp ha with rfl | ha
        · exact le_refl _
        · exact (List.pairwise_cons.mp hy).1 a ha
      have heq : key a = key b := le_antisymm hle hge
      have hhead := h (key b)
      rw [List.filter_cons_of_pos (by simp [heq]), List.filter_cons_of_pos (by simp)] at hhead
      obtain ⟨rfl, -⟩ := List.cons.inj hhead
      rw [ih hx.of_cons hy.of_cons]
      intro v
      have hv := h v
      rw [List.filter_cons, List.filter_cons] at hv
      by_cases hav : key a = v
      · rw [if_pos (by simpa using hav), if_pos (by simpa using hav)] at hv
        exact (List.cons.inj hv).2
      · rw [if_neg (by simpa using hav), if_neg (by simpa using hav)] at hv
        exact hv

variable {μ : Type*} [LinearOrder μ]

/-- Keys that order the entries alike sort alike. -/
theorem sortBy_congr {key : α → κ} {key' : α → μ} {xs : List α}
    (h : ∀ a ∈ xs, ∀ b ∈ xs, key a < key b ↔ key' a < key' b) : sortBy key xs = sortBy key' xs := by
  have hle : ∀ a ∈ xs, ∀ b ∈ xs, key a ≤ key b ↔ key' a ≤ key' b := fun a ha b hb => by
    rw [← not_lt, ← not_lt, h b hb a ha]
  have hid := List.map_insertionSort (fun a b => key a ≤ key b) (fun a b => key' a ≤ key' b) id xs
    hle
  rw [List.map_id, List.map_id] at hid
  exact hid

/-- Of two sorts in a row only the second counts, when its key settles the first one's. -/
theorem sortBy_sortBy {key : α → κ} {key' : α → μ} (h : ∀ a b, key' a = key' b → key a = key b)
    (xs : List α) : sortBy key' (sortBy key xs) = sortBy key' xs := by
  refine eq_of_filter_eq (sortBy_pairwise key' _) (sortBy_pairwise key' _) fun v => ?_
  rw [filter_sortBy, filter_sortBy]
  -- the entries with `key' = v` share one value of `key`, and `sortBy key` kept their order
  cases hv : xs.filter fun b => decide (key' b = v) with
  | nil =>
    rw [List.filter_eq_nil_iff] at hv ⊢
    intro a ha
    exact hv a ((mem_sortBy key xs a).mp ha)
  | cons d ds =>
    have hd : key' d = v := by
      have hmem : d ∈ xs.filter fun b => decide (key' b = v) := by simp [hv]
      simpa using (List.mem_filter.mp hmem).2
    have hsub : ∀ ys : List α, ys.filter (fun b => decide (key' b = v)) =
        (ys.filter fun b => decide (key b = key d)).filter fun b => decide (key' b = v) := by
      intro ys
      rw [List.filter_filter]
      apply List.filter_congr
      intro b hb
      by_cases hbv : key' b = v
      · simp [hbv, h b d (hbv.trans hd.symm)]
      · simp [hbv]
    rw [hsub, filter_sortBy, ← hsub, hv]

/-- Entries told apart by their keys are sorted the same way from any order. -/
theorem sortBy_eq_of_perm {key : α → κ} {xs ys : List α} (hperm : xs.Perm ys)
    (hinj : ∀ a ∈ xs, ∀ b ∈ xs, key a = key b → a = b) : sortBy key xs = sortBy key ys := by
  have hp : (sortBy key xs).Perm (sortBy key ys) :=
    ((sortBy_perm key xs).trans hperm).trans (sortBy_perm key ys).symm
  refine hp.eq_of_pairwise ?_ (sortBy_pairwise key xs) (sortBy_pairwise key ys)
  intro a b ha hb hab hba
  have hb' : b ∈ xs := hperm.mem_iff.mpr ((mem_sortBy key ys b).mp hb)
  exact hinj a ((mem_sortBy key xs a).mp ha) b hb' (le_antisymm hab hba)

theorem getElem?_iff_countP {key : α → κ} {xs : List α}
    (hsorted : xs.Pairwise fun a b => key a < key b) (a : α) (i : Nat) :
    xs[i]? = some a ↔ a ∈ xs ∧ xs.countP (fun b => decide (key b < key a)) = i := by
  induction xs generalizing i with
  | nil => simp
  | cons d xs ih =>
    obtain ⟨hd, hxs⟩ := List.pairwise_cons.mp hsorted
    have hzero : xs.countP (fun b => decide (key b < key d)) = 0 := by
      rw [List.countP_eq_zero]
      intro b hb
      simpa using le_of_lt (hd b hb)
    cases i with
    | zero =>
      rw [List.getElem?_cons_zero, Option.some_inj]
      constructor
      · rintro rfl
        exact ⟨by simp, by simp [hzero]⟩
      · rintro ⟨ha, hcount⟩
        rcases List.mem_cons.mp ha with rfl | ha
        · rfl
        · rw [List.countP_cons_of_pos (by simpa using hd a ha)] at hcount
          omega
    | succ i =>
      rw [List.getElem?_cons_succ, ih hxs]
      constructor
      · rintro ⟨ha, hcount⟩
        refine ⟨by simp [ha], ?_⟩
        rw [List.countP_cons_of_pos (by simpa using hd a ha), hcount]
      · rintro ⟨ha, hcount⟩
        rcases List.mem_cons.mp ha with rfl | ha
        · rw [List.countP_cons_of_neg (by simp), hzero] at hcount
          omega
        · rw [List.countP_cons_of_pos (by simpa using hd a ha)] at hcount
          exact ⟨ha, by omega⟩

/-- In a sorted list the entries with the key `v` stand behind the smaller ones and before the
    larger ones. -/
theorem key_eq_iff_rank {key : α → κ} {xs : List α} (hsorted : xs.Pairwise fun a b => key a ≤ key b)
    (v : κ) {a : α} {i : Nat} (ha : xs[i]? = some a) :
    key a = v ↔ xs.countP (fun b => decide (key b < v)) ≤ i ∧
      i < xs.countP fun b => decide (key b ≤ v) := by
  induction xs generalizing i with
  | nil => cases ha
  | cons d xs ih =>
    obtain ⟨hd, hxs⟩ := List.pairwise_cons.mp hsorted
    -- behind a key that is not smaller there is no smaller one
    have hlt : ¬ key d < v → xs.countP (fun b => decide (key b < v)) = 0 := by
      intro hdv
      rw [List.countP_eq_zero]
      intro b hb
      simpa using le_trans (not_lt.mp hdv) (hd b hb)
    have hle : ¬ key d ≤ v → xs.countP (fun b => decide (key b ≤ v)) = 0 := by
      intro hdv
      rw [List.countP_eq_zero]
      intro b hb
      simpa using lt_of_lt_of_le (not_le.mp hdv) (hd b hb)
    rw [List.countP_cons, List.countP_cons]
    simp only [decide_eq_true_eq]
    cases i with
    | zero =>
      obtain rfl : d = a := Option.some.inj ha
      rcases lt_trichotomy (key d) v with h | h | h
      · rw [if_pos h]
        exact ⟨fun heq => absurd heq (ne_of_lt h), fun hrank => by omega⟩
      · rw [if_neg (not_lt_of_ge h.ge), if_pos h.le, hlt (not_lt_of_ge h.ge)]
        exact ⟨fun _ => by omega, fun _ => h⟩
      · rw [if_neg (not_le.mpr h), hle (not_le.mpr h)]
        exact ⟨fun heq => absurd heq (ne_of_gt h), fun hrank => by omega⟩
    | succ i =>
      rw [List.getElem?_cons_succ] at ha
      rw [ih hxs ha]
      rcases lt_trichotomy (key d) v with h | h | h
      · rw [if_pos h, if_pos (le_of_lt h)]
        omega
      · rw [if_neg (not_lt_of_ge h.ge), if_pos h.le, hlt (not_lt_of_ge h.ge)]
        omega
      · rw [if_neg (not_lt.mpr (le_of_lt h)), if_neg (not_le.mpr h), hle (not_le.mpr h)]
        omega

omit [LinearOrder κ] in
/-- A key that tells apart whatever another one does. -/
theorem nodup_map_of_key {β : Type*} {key : α → κ} {key' : α → β} {xs : List α}
    (h : (xs.map key).Nodup) (hkey : ∀ {a b}, key' a = key' b → key a = key b) :
    (xs.map key').Nodup := by
  rw [List.Nodup, List.pairwise_map] at h ⊢
  exact h.imp fun hne heq => hne (hkey heq)

/-- The index of an entry is the number of entries with a smaller key. -/
theorem getElem?_sortBy_iff {key : α → κ} {xs : List α} (hnodup : (xs.map key).Nodup) (a : α)
    (i : Nat) :
    (sortBy key xs)[i]? = some a ↔ a ∈ xs ∧ xs.countP (fun b => decide (key b < key a)) = i := by
  have hperm := sortBy_perm key xs
  have hne : (sortBy key xs).Pairwise fun a b => key a ≠ key b :=
    List.pairwise_map.mp ((hperm.map key).nodup_iff.mpr hnodup)
  have hlt : (sortBy key xs).Pairwise fun a b => key a < key b :=
    ((sortBy_pairwise key xs).and hne).imp fun h => lt_of_le_of_ne h.1 h.2
  rw [getElem?_iff_countP hlt, mem_sortBy, hperm.countP_eq]

omit [LinearOrder κ] in
/-- Two counts agree when as many entries are in the first only as in the second only. -/
theorem countP_eq_countP_iff {xs : List α} {p q : α → Bool} :
    xs.countP p = xs.countP q ↔
      xs.countP (fun a => p a && !q a) = xs.countP fun a => q a && !p a := by
  have hboth : ∀ (p q : α → Bool), xs.countP p =
      xs.countP (fun a => p a && q a) + xs.countP fun a => p a && !q a := by
    intro p q
    induction xs with
    | nil => rfl
    | cons a xs ih =>
      simp only [List.countP_cons, ih]
      cases p a <;> cases q a <;> simp <;> omega
  have hcomm : xs.countP (fun a => q a && p a) = xs.countP fun a => p a && q a := by
    simp only [Bool.and_comm]
  rw [hboth p q, hboth q p, hcomm]
  omega

theorem countP_behind {key : α → κ} (key' : α → μ) {xs : List α} {a : α}
    (hinj : ∀ b ∈ xs, key b = key a → b = a) :
    xs.countP (fun b => decide (key' b < key' a) && !decide (key b < key a)) =
      xs.countP fun b => decide (key a < key b ∧ key' b < key' a) := by
  apply List.countP_congr
  intro b hb
  rw [← decide_not, ← Bool.decide_and, decide_eq_true_eq, decide_eq_true_eq]
  constructor
  · rintro ⟨hlt', hnot⟩
    refine ⟨lt_of_le_of_ne (not_lt.mp hnot) fun heq => ?_, hlt'⟩
    rw [hinj b hb heq.symm] at hlt'
    exact lt_irrefl _ hlt'
  · rintro ⟨hlt, hlt'⟩
    exact ⟨hlt', not_lt.mpr (le_of_lt hlt)⟩

/-- An entry has the same index under two keys exactly when, from the one to the other, as many
    entries pass it as fall behind it. -/
theorem getElem?_sortBy_other_iff {key : α → κ} {key' : α → μ} {xs : List α}
    (hnodup : (xs.map key).Nodup) (hnodup' : (xs.map key').Nodup) {a : α} {i : Nat}
    (ha : (sortBy key xs)[i]? = some a) :
    (sortBy key' xs)[i]? = some a ↔
      xs.countP (fun b => decide (key a < key b ∧ key' b < key' a)) =
        xs.countP fun b => decide (key b < key a ∧ key' a < key' b) := by
  obtain ⟨hmem, hcount⟩ := (getElem?_sortBy_iff hnodup a i).mp ha
  have hpass := countP_behind key'
    fun b hb h => List.inj_on_of_nodup_map hnodup hb hmem h
  have hfall := countP_behind key
    fun b hb h => List.inj_on_of_nodup_map hnodup' hb hmem h
  rw [getElem?_sortBy_iff hnodup' a i, and_iff_right hmem, ← hcount, countP_eq_countP_iff, hpass,
    hfall]
  simp only [and_comm]

end Lib.SortBy
