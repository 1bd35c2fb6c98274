import TraxMania.Lib.Dict
import Mathlib.Data.List.Perm.Basic

/-
  Rows that are written one over another, and the pairs of rows that are related.

  Of the rows with one key a dictionary keeps the last, the others are hidden. Counting the related
  pairs of the kept rows counts those of all rows just where no hidden row is related to any.

  Nothing here is about a program in particular.
-/

namespace Lib.Overwrite

variable {α κ β γ : Type*}

/-! ## Kept and hidden rows -/

section Kept

variable [DecidableEq κ] (key : α → κ)

/-- The rows that no later one has the key of. -/
def kept : List α → List α
  | [] => []
  | a :: rows => if ∃ b ∈ rows, key b = key a then kept rows else a :: kept rows

/-- The rows that a later one has the key of. -/
def hidden : List α → List α
  | [] => []
  | a :: rows => if ∃ b ∈ rows, key b = key a then a :: hidden rows else hidden rows

variable {key}

variable (key) in
theorem perm_kept_hidden (rows : List α) : rows.Perm (kept key rows ++ hidden key rows) := by
  induction rows with
  | nil => exact List.Perm.refl _
  | cons a rows ih =>
    unfold kept hidden
    split
    · exact (ih.cons a).trans List.perm_middle.symm
    · exact ih.cons a

theorem mem_hidden {rows : List α} {a : α} :
    a ∈ hidden key rows ↔
      ∃ before after, rows = before ++ a :: after ∧ ∃ b ∈ after, key b = key a := by
  induction rows with
  | nil => simp [hidden]
  | cons c rows ih =>
    have hrest : (∃ before after, c :: rows = before ++ a :: after ∧ ∃ b ∈ after, key b = key a) ↔
        (a = c ∧ ∃ b ∈ rows, key b = key a) ∨ a ∈ hidden key rows := by
      rw [ih]
      constructor
      · rintro ⟨before, after, heq, hb⟩
        rcases List.cons_eq_append_iff.mp heq with ⟨-, h⟩ | ⟨before, rfl, h⟩
        · obtain ⟨rfl, rfl⟩ := List.cons.inj h
          exact Or.inl ⟨rfl, hb⟩
        · exact Or.inr ⟨before, after, h, hb⟩
      · rintro (⟨rfl, hb⟩ | ⟨before, after, rfl, hb⟩)
        · exact ⟨[], rows, rfl, hb⟩
        · exact ⟨c :: before, after, rfl, hb⟩
    rw [hrest, hidden]
    split
    · next hlater =>
      rw [List.mem_cons]
      refine or_congr_left ⟨?_, And.left⟩
      rintro rfl
      exact ⟨rfl, hlater⟩
    · next hlater =>
      refine (or_iff_right ?_).symm
      rintro ⟨rfl, hb⟩
      exact hlater hb

theorem mem_of_mem_kept {rows : List α} {a : α} (h : a ∈ kept key rows) : a ∈ rows :=
  (perm_kept_hidden key rows).mem_iff.mpr (List.mem_append_left _ h)

theorem nodup_kept (rows : List α) : ((kept key rows).map key).Nodup := by
  induction rows with
  | nil => exact List.nodup_nil
  | cons a rows ih =>
    unfold kept
    split
    · exact ih
    · next hlater =>
      refine List.nodup_cons.mpr ⟨fun hmem => ?_, ih⟩
      obtain ⟨b, hb, hkey⟩ := List.mem_map.mp hmem
      exact hlater ⟨b, mem_of_mem_kept hb, hkey⟩

/-- The last row with a key is the kept one. -/
theorem getLast?_filter_key (rows : List α) (k : κ) :
    (rows.filter fun a => decide (key a = k)).getLast? =
      (kept key rows).find? fun a => decide (key a = k) := by
  induction rows with
  | nil => rfl
  | cons a rows ih =>
    rw [List.filter_cons]
    unfold kept
    by_cases hk : key a = k
    · rw [if_pos (decide_eq_true hk)]
      split
      · next hlater =>
        obtain ⟨b, hb, hkey⟩ := hlater
        have hne : (rows.filter fun a => decide (key a = k)) ≠ [] :=
          List.ne_nil_of_mem (List.mem_filter.mpr ⟨hb, decide_eq_true (hkey.trans hk)⟩)
        rw [← ih, List.getLast?_cons, List.getLast?_eq_some_getLast hne, Option.getD_some]
      · next hlater =>
        have hnil : (rows.filter fun a => decide (key a = k)) = [] := by
          refine List.filter_eq_nil_iff.mpr fun b hb hkey => hlater ⟨b, hb, ?_⟩
          exact (of_decide_eq_true hkey).trans hk.symm
        rw [hnil, List.find?_cons_of_pos (by simpa using hk)]
        rfl
    · rw [if_neg (by simpa using hk), ih]
      split
      · rfl
      · rw [List.find?_cons_of_neg (by simpa using hk)]

/-- The entries of a dictionary that was written row by row are those of the kept rows. -/
theorem items_foldl_overwrite (key : α → κ) (val : α → β) (rows : List α) :
    (rows.foldl (fun acc a => acc.upsert (key a) fun _ => val a)
      (Dict.empty : Dict κ β)).items.Perm ((kept key rows).map fun a => (key a, val a)) := by
  have hkeys : (((kept key rows).map fun a => (key a, val a)).map Prod.fst).Nodup := by
    rw [List.map_map]
    exact nodup_kept rows
  refine (List.perm_ext_iff_of_nodup (List.Nodup.of_map _ (Dict.nodup _))
    (List.Nodup.of_map _ hkeys)).mpr fun e => ?_
  have hitem : e ∈ (rows.foldl (fun acc a => acc.upsert (key a) fun _ => val a)
      (Dict.empty : Dict κ β)).items ↔ (rows.foldl (fun acc a => acc.upsert (key a) fun _ => val a)
      (Dict.empty : Dict κ β)).get? e.1 = some e.2 :=
    ⟨Dict.get?_eq_some, Dict.mem_items_of_get?⟩
  rw [hitem, Dict.get?_foldl_overwrite, getLast?_filter_key, Option.map_eq_some_iff, List.mem_map]
  constructor
  · rintro ⟨a, ha, hval⟩
    have hkey := List.find?_some ha
    exact ⟨a, List.mem_of_find?_eq_some ha, Prod.ext (of_decide_eq_true hkey) hval⟩
  · rintro ⟨a, ha, rfl⟩
    cases hfind : (kept key rows).find? fun b => decide (key b = key a) with
    | none => exact absurd (decide_eq_true rfl) (List.find?_eq_none.mp hfind a ha)
    | some b =>
      have hkey := List.find?_some hfind
      have hb := List.mem_of_find?_eq_some hfind
      rw [List.inj_on_of_nodup_map (nodup_kept rows) hb ha (of_decide_eq_true hkey)]
      exact ⟨a, rfl, rfl⟩

end Kept

/-! ## Related pairs -/

section Related

variable (f : α → α → Option γ)

/-- What `f` gives for the ordered pairs of a row of the one list and a row of the other. -/
def related (xs ys : List α) : List γ := xs.flatMap fun a => ys.filterMap (f a)

variable {f}

theorem mem_related {xs ys : List α} {c : γ} :
    c ∈ related f xs ys ↔ ∃ a ∈ xs, ∃ b ∈ ys, f a b = some c := by
  unfold related
  simp only [List.mem_flatMap, List.mem_filterMap]

theorem related_perm {xs xs' ys ys' : List α} (hx : xs.Perm xs') (hy : ys.Perm ys') :
    (related f xs ys).Perm (related f xs' ys') :=
  (List.Perm.flatMap_right _ hx).trans
    (List.Perm.flatMap_left _ fun a _ => hy.filterMap (f a))

theorem related_map (h : β → α) (xs ys : List β) :
    related f (xs.map h) (ys.map h) = related (fun a b => f (h a) (h b)) xs ys := by
  unfold related
  rw [List.flatMap_map]
  refine List.flatMap_congr fun a _ => ?_
  rw [List.filterMap_map]
  rfl

theorem related_append_left (xs xs' ys : List α) :
    related f (xs ++ xs') ys = related f xs ys ++ related f xs' ys :=
  List.flatMap_append

theorem related_append_right (xs ys ys' : List α) :
    (related f xs (ys ++ ys')).Perm (related f xs ys ++ related f xs ys') := by
  unfold related
  simp only [List.filterMap_append]
  exact (List.flatMap_append_perm xs _ _).symm

/-- Reading the pairs the other way round. -/
theorem related_swap (xs ys : List α) :
    (related f xs ys).Perm (related (fun a b => f b a) ys xs) := by
  induction xs with
  | nil =>
    unfold related
    simp
  | cons a xs ih =>
    have hone : related (fun a b => f b a) ys [a] = ys.filterMap (f a) := by
      unfold related
      rw [List.filterMap_eq_flatMap_toList]
      refine List.flatMap_congr fun b _ => ?_
      cases hf : f a b <;> simp [hf]
    have hcons : related f (a :: xs) ys = ys.filterMap (f a) ++ related f xs ys := rfl
    rw [hcons, ← hone]
    exact (ih.append_left _).trans (related_append_right ys [a] xs).symm

/-- A part of the rows counts all related pairs just where the rest is related to none. -/
theorem perm_related_iff {rows part rest : List α} (h : rows.Perm (part ++ rest)) :
    (related f part part).Perm (related f rows rows) ↔
      ∀ a ∈ rest, ∀ b ∈ rows, f a b = none ∧ f b a = none := by
  have hall : (related f rows rows).Perm
      (related f part part ++ (related f part rest ++ related f rest (part ++ rest))) := by
    refine (related_perm h h).trans ?_
    rw [related_append_left, ← List.append_assoc]
    exact (related_append_right part part rest).append_right _
  have hempty : (related f part part).Perm (related f rows rows) ↔
      related f part rest ++ related f rest (part ++ rest) = [] := by
    constructor
    · intro hperm
      have hlength := (hperm.trans hall).length_eq
      rw [List.length_append] at hlength
      exact List.length_eq_zero_iff.mp (by omega)
    · intro hnil
      rw [hnil, List.append_nil] at hall
      exact hall.symm
  rw [hempty, List.append_eq_nil_iff]
  simp only [List.eq_nil_iff_forall_not_mem, mem_related, not_exists, not_and]
  have hnone : ∀ a b, (∀ c, ¬ f a b = some c) ↔ f a b = none := fun a b =>
    Option.eq_none_iff_forall_ne_some.symm
  have hrows : ∀ b, b ∈ rows ↔ b ∈ part ++ rest := fun b => h.mem_iff
  constructor
  · rintro ⟨hpart, hrest⟩ a ha b hb
    rw [hrows] at hb
    refine ⟨(hnone a b).mp fun c => hrest c a ha b hb, ?_⟩
    rcases List.mem_append.mp hb with hb | hb
    · exact (hnone b a).mp fun c => hpart c b hb a ha
    · exact (hnone b a).mp fun c => hrest c b hb a (List.mem_append_right _ ha)
  · intro hrel
    constructor
    · intro c a ha b hb
      have := (hrel b hb a ((hrows a).mpr (List.mem_append_left _ ha))).2
      rw [this]
      exact (Option.some_ne_none c).symm
    · intro c a ha b hb
      have := (hrel a ha b ((hrows b).mpr hb)).1
      rw [this]
      exact (Option.some_ne_none c).symm

end Related

end Lib.Overwrite
