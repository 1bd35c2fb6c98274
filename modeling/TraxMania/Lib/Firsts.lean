import Mathlib.Data.Finset.Insert
import Mathlib.Data.List.Nodup

/-
  A loop that skips an entry when an entry with its key was there before: what is left are the
  first entries of their keys.

  Nothing here is about a program in particular.
-/

namespace Lib

variable {α κ κ' σ : Type*} [DecidableEq κ] [DecidableEq κ']

/-- The entries of `xs` whose key is not in `seen` and not the key of an earlier entry. -/
def firstsFrom (key : α → κ) (seen : Finset κ) : List α → List α
  | [] => []
  | a :: xs =>
    if key a ∈ seen then firstsFrom key seen xs
    else a :: firstsFrom key (insert (key a) seen) xs

/-- The first entries of their keys. -/
def firsts (key : α → κ) (xs : List α) : List α := firstsFrom key ∅ xs

/-- The loop with its `seen` set, as a fold. -/
def seenStep (key : α → κ) (f : σ → α → σ) (s : Finset κ × σ) (a : α) : Finset κ × σ :=
  if key a ∈ s.1 then s else (insert (key a) s.1, f s.2 a)

theorem firstsFrom_nil (key : α → κ) (seen : Finset κ) : firstsFrom key seen [] = [] := rfl

theorem firstsFrom_cons_pos {key : α → κ} {seen : Finset κ} {a : α} (h : key a ∈ seen)
    (xs : List α) : firstsFrom key seen (a :: xs) = firstsFrom key seen xs := by
  rw [firstsFrom, if_pos h]

theorem firstsFrom_cons_neg {key : α → κ} {seen : Finset κ} {a : α} (h : key a ∉ seen)
    (xs : List α) :
    firstsFrom key seen (a :: xs) = a :: firstsFrom key (insert (key a) seen) xs := by
  rw [firstsFrom, if_neg h]

/-- The loop does its work on the first entries only. -/
theorem foldl_seenStep (key : α → κ) (f : σ → α → σ) (xs : List α) (s : Finset κ × σ) :
    (xs.foldl (seenStep key f) s).2 = (firstsFrom key s.1 xs).foldl f s.2 := by
  induction xs generalizing s with
  | nil => rfl
  | cons a xs ih =>
    rw [List.foldl_cons, ih, seenStep]
    by_cases h : key a ∈ s.1
    · rw [if_pos h, firstsFrom_cons_pos h]
    · rw [if_neg h, firstsFrom_cons_neg h, List.foldl_cons]

theorem firstsFrom_sublist (key : α → κ) (seen : Finset κ) (xs : List α) :
    (firstsFrom key seen xs).Sublist xs := by
  induction xs generalizing seen with
  | nil => exact List.Sublist.slnil
  | cons a xs ih =>
    by_cases h : key a ∈ seen
    · rw [firstsFrom_cons_pos h]
      exact (ih seen).cons a
    · rw [firstsFrom_cons_neg h]
      exact (ih _).cons_cons a

theorem mem_of_mem_firsts {key : α → κ} {xs : List α} {a : α} (h : a ∈ firsts key xs) : a ∈ xs :=
  (firstsFrom_sublist key ∅ xs).subset h

theorem key_notMem_of_mem_firstsFrom {key : α → κ} {seen : Finset κ} {xs : List α} {a : α}
    (h : a ∈ firstsFrom key seen xs) : key a ∉ seen := by
  induction xs generalizing seen with
  | nil => cases h
  | cons b xs ih =>
    by_cases hb : key b ∈ seen
    · rw [firstsFrom_cons_pos hb] at h
      exact ih h
    · rw [firstsFrom_cons_neg hb] at h
      rcases List.mem_cons.mp h with rfl | h
      · exact hb
      · exact fun hs => ih h (Finset.mem_insert_of_mem hs)

/-- No key comes twice. -/
theorem firstsFrom_pairwise (key : α → κ) (seen : Finset κ) (xs : List α) :
    (firstsFrom key seen xs).Pairwise fun a b => key a ≠ key b := by
  induction xs generalizing seen with
  | nil => exact List.Pairwise.nil
  | cons a xs ih =>
    by_cases h : key a ∈ seen
    · rw [firstsFrom_cons_pos h]
      exact ih seen
    · rw [firstsFrom_cons_neg h]
      refine List.pairwise_cons.mpr ⟨fun b hb e => ?_, ih _⟩
      exact key_notMem_of_mem_firstsFrom hb (by rw [← e]; exact Finset.mem_insert_self _ _)

theorem firsts_pairwise (key : α → κ) (xs : List α) :
    (firsts key xs).Pairwise fun a b => key a ≠ key b :=
  firstsFrom_pairwise key ∅ xs

/-- No key is lost. -/
theorem exists_mem_firstsFrom {key : α → κ} {seen : Finset κ} {xs : List α} {a : α}
    (ha : a ∈ xs) (hs : key a ∉ seen) : ∃ b ∈ firstsFrom key seen xs, key b = key a := by
  induction xs generalizing seen with
  | nil => cases ha
  | cons b xs ih =>
    rcases List.mem_cons.mp ha with rfl | ha
    · rw [firstsFrom_cons_neg hs]
      exact ⟨a, List.mem_cons_self, rfl⟩
    · by_cases hb : key b ∈ seen
      · rw [firstsFrom_cons_pos hb]
        exact ih ha hs
      · rw [firstsFrom_cons_neg hb]
        by_cases hk : key a = key b
        · exact ⟨b, List.mem_cons_self, hk.symm⟩
        · have hs' : key a ∉ insert (key b) seen := by
            rw [Finset.mem_insert]
            tauto
          obtain ⟨c, hc, hkey⟩ := ih ha hs'
          exact ⟨c, List.mem_cons_of_mem _ hc, hkey⟩

theorem exists_mem_firsts {key : α → κ} {xs : List α} {a : α} (ha : a ∈ xs) :
    ∃ b ∈ firsts key xs, key b = key a :=
  exists_mem_firstsFrom ha (Finset.notMem_empty _)

/-- Two keys that tell the same entries apart leave the same entries. -/
theorem firstsFrom_congr {key : α → κ} {key' : α → κ'} {ys xs : List α} {seen : Finset κ}
    {seen' : Finset κ'} (hseen : ∀ a ∈ xs, key a ∈ seen ↔ key' a ∈ seen') (hsub : xs ⊆ ys)
    (hkey : ∀ a ∈ ys, ∀ b ∈ ys, key a = key b ↔ key' a = key' b) :
    firstsFrom key seen xs = firstsFrom key' seen' xs := by
  induction xs generalizing seen seen' with
  | nil => rfl
  | cons a xs ih =>
    have ha : a ∈ ys := hsub List.mem_cons_self
    have hxs : xs ⊆ ys := fun b hb => hsub (List.mem_cons_of_mem _ hb)
    have htail : ∀ b ∈ xs, key b ∈ seen ↔ key' b ∈ seen' :=
      fun b hb => hseen b (List.mem_cons_of_mem _ hb)
    have hhead := hseen a List.mem_cons_self
    by_cases hs : key a ∈ seen
    · rw [firstsFrom_cons_pos hs, firstsFrom_cons_pos (hhead.mp hs)]
      exact ih htail hxs
    · rw [firstsFrom_cons_neg hs, firstsFrom_cons_neg fun h => hs (hhead.mpr h)]
      have hnew : ∀ b ∈ xs, key b ∈ insert (key a) seen ↔ key' b ∈ insert (key' a) seen' := by
        intro b hb
        rw [Finset.mem_insert, Finset.mem_insert, htail b hb, hkey b (hxs hb) a ha]
      rw [ih hnew hxs]

theorem firsts_congr {key : α → κ} {key' : α → κ'} {xs : List α}
    (hkey : ∀ a ∈ xs, ∀ b ∈ xs, key a = key b ↔ key' a = key' b) :
    firsts key xs = firsts key' xs :=
  firstsFrom_congr (by simp) (fun _ h => h) hkey

/-- One more entry: it stays when its key is new. -/
theorem firstsFrom_concat (key : α → κ) (seen : Finset κ) (xs : List α) (a : α) :
    firstsFrom key seen (xs ++ [a]) =
      firstsFrom key seen xs ++ if key a ∈ seen ∨ key a ∈ xs.map key then [] else [a] := by
  induction xs generalizing seen with
  | nil =>
    rw [List.nil_append, firstsFrom_nil, List.nil_append, List.map_nil]
    by_cases h : key a ∈ seen
    · rw [firstsFrom_cons_pos h, firstsFrom_nil, if_pos (Or.inl h)]
    · rw [firstsFrom_cons_neg h, firstsFrom_nil, if_neg (by simpa using h)]
  | cons b xs ih =>
    rw [List.cons_append]
    by_cases h : key b ∈ seen
    · rw [firstsFrom_cons_pos h, firstsFrom_cons_pos h, ih]
      have hiff : key a ∈ seen ∨ key a ∈ xs.map key ↔
          key a ∈ seen ∨ key a ∈ (b :: xs).map key := by
        rw [List.map_cons, List.mem_cons]
        refine ⟨Or.imp_right Or.inr, ?_⟩
        rintro (hs | hb | hx)
        · exact .inl hs
        · exact .inl (hb ▸ h)
        · exact .inr hx
      simp only [hiff]
    · rw [firstsFrom_cons_neg h, firstsFrom_cons_neg h, ih, List.cons_append]
      have hiff : key a ∈ insert (key b) seen ∨ key a ∈ xs.map key ↔
          key a ∈ seen ∨ key a ∈ (b :: xs).map key := by
        rw [List.map_cons, List.mem_cons, Finset.mem_insert]
        tauto
      simp only [hiff]

theorem firsts_concat (key : α → κ) (xs : List α) (a : α) :
    firsts key (xs ++ [a]) =
      firsts key xs ++ if key a ∈ xs.map key then [] else [a] := by
  unfold firsts
  rw [firstsFrom_concat]
  simp

/-- The entries of a mapped list. -/
theorem firstsFrom_map {β : Type*} (key : α → κ) (g : β → α) (seen : Finset κ) (xs : List β) :
    firstsFrom key seen (xs.map g) = (firstsFrom (fun b => key (g b)) seen xs).map g := by
  induction xs generalizing seen with
  | nil => rfl
  | cons b xs ih =>
    rw [List.map_cons]
    by_cases h : key (g b) ∈ seen
    · rw [firstsFrom_cons_pos h, ih, @firstsFrom_cons_pos β κ _ (fun b => key (g b)) seen b h]
    · rw [firstsFrom_cons_neg h, ih, @firstsFrom_cons_neg β κ _ (fun b => key (g b)) seen b h,
        List.map_cons]

omit [DecidableEq κ] in
/-- Where no key comes twice, the entries with the key of `a` are `a` alone. -/
theorem filter_key_eq {key : α → κ} {xs : List α} (h : xs.Pairwise fun a b => key a ≠ key b)
    {a : α} (ha : a ∈ xs) (q : α → Bool) (hq : ∀ b ∈ xs, q b = true ↔ key b = key a) :
    xs.filter q = [a] := by
  induction xs with
  | nil => cases ha
  | cons b xs ih =>
    rw [List.pairwise_cons] at h
    have hqs : ∀ c ∈ xs, q c = true ↔ key c = key a :=
      fun c hc => hq c (List.mem_cons_of_mem _ hc)
    rcases List.mem_cons.mp ha with rfl | hmem
    · have hrest : xs.filter q = [] := by
        rw [List.filter_eq_nil_iff]
        exact fun c hc hqc => h.1 c hc ((hqs c hc).mp hqc).symm
      rw [List.filter_cons_of_pos ((hq a List.mem_cons_self).mpr rfl), hrest]
    · have hb : ¬ q b = true := fun hqb =>
        h.1 a hmem ((hq b List.mem_cons_self).mp hqb)
      rw [List.filter_cons_of_neg hb]
      exact ih h.2 hmem hqs

omit [DecidableEq κ] [DecidableEq κ'] in
/-- The first entry with a property. -/
theorem exists_first {P : α → Prop} {xs : List α} (h : ∃ x ∈ xs, P x) :
    ∃ before x after, xs = before ++ x :: after ∧ P x ∧ ∀ z ∈ before, ¬ P z := by
  classical
  obtain ⟨x, hx, hp⟩ := h
  cases hfind : xs.find? fun z => decide (P z) with
  | none => exact absurd hp (by simpa using List.find?_eq_none.mp hfind x hx)
  | some z =>
    obtain ⟨hz, before, after, heq, hbefore⟩ := List.find?_eq_some_iff_append.mp hfind
    refine ⟨before, z, after, heq, of_decide_eq_true hz, ?_⟩
    intro a ha
    simpa using hbefore a ha

end Lib
