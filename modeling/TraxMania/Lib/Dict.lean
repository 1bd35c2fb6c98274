import Mathlib.Data.List.Nodup
import Mathlib.Algebra.BigOperators.Group.List.Basic
import Mathlib.Algebra.Ring.Nat
import Mathlib.Data.Finset.Dedup
import Mathlib.Data.Finset.Image

/-
  Dictionaries as Python has them: pairs of a key and a value in the order in which the keys came
  in, no key twice.

  Nothing here is about a program in particular.
-/

namespace Lib

variable {κ β : Type*}

/-- A dictionary, by its `items()`. -/
structure Dict (κ β : Type*) where
  items : List (κ × β)
  nodup : (items.map Prod.fst).Nodup

namespace Dict

/-- `{}`. -/
def empty : Dict κ β := ⟨[], List.nodup_nil⟩

/-- `list(d)`. -/
def keys (d : Dict κ β) : List κ := d.items.map Prod.fst

theorem keys_nodup (d : Dict κ β) : d.keys.Nodup := d.nodup

theorem mem_keys {d : Dict κ β} {k : κ} : k ∈ d.keys ↔ ∃ v, (k, v) ∈ d.items := by
  simp [keys]

variable [DecidableEq κ]

/-- `d.get(k)`. -/
def get? (d : Dict κ β) (k : κ) : Option β := d.items.lookup k

/-- The items when the value at `k` becomes `f` of what it was. -/
def upsertItems (k : κ) (f : Option β → β) : List (κ × β) → List (κ × β)
  | [] => [(k, f none)]
  | (k', v) :: rest => if k' = k then (k, f (some v)) :: rest else (k', v) :: upsertItems k f rest

theorem keys_upsertItems (k : κ) (f : Option β → β) (items : List (κ × β)) :
    (upsertItems k f items).map Prod.fst =
      if k ∈ items.map Prod.fst then items.map Prod.fst else items.map Prod.fst ++ [k] := by
  induction items with
  | nil => simp [upsertItems]
  | cons kv rest ih =>
    obtain ⟨k', v⟩ := kv
    unfold upsertItems
    split
    · next h => simp [h]
    · next h =>
      have hk : ¬ k = k' := fun e => h e.symm
      rw [List.map_cons, ih]
      by_cases hmem : k ∈ rest.map Prod.fst
      · rw [if_pos hmem, if_pos (by rw [List.map_cons]; exact List.mem_cons_of_mem _ hmem)]
        rfl
      · rw [if_neg hmem, if_neg (by rw [List.map_cons, List.mem_cons]; tauto)]
        rfl

/-- `d[k] = f(d.get(k))`; a new key goes to the end. -/
def upsert (d : Dict κ β) (k : κ) (f : Option β → β) : Dict κ β where
  items := upsertItems k f d.items
  nodup := by
    rw [keys_upsertItems]
    split
    · exact d.nodup
    · next h =>
      rw [List.nodup_append]
      refine ⟨d.nodup, List.nodup_singleton k, fun a ha b hb => ?_⟩
      rw [List.mem_singleton] at hb
      exact fun e => h (hb ▸ e ▸ ha)

/-- `d.setdefault(k, v)`. -/
def setdefault (d : Dict κ β) (k : κ) (v : β) : Dict κ β := d.upsert k fun old => old.getD v

/-- `{**d, **e}`. -/
def merge (d e : Dict κ β) : Dict κ β :=
  e.items.foldl (fun acc kv => acc.upsert kv.1 fun _ => kv.2) d

theorem mem_keys_upsert {d : Dict κ β} {k k' : κ} {f : Option β → β} :
    k' ∈ (d.upsert k f).keys ↔ k' = k ∨ k' ∈ d.keys := by
  unfold keys upsert
  rw [keys_upsertItems]
  split
  · next h =>
    constructor
    · exact Or.inr
    · rintro (rfl | h')
      · exact h
      · exact h'
  · rw [List.mem_append, List.mem_singleton, or_comm]

theorem items_upsert_ne_nil (d : Dict κ β) (k : κ) (f : Option β → β) :
    (d.upsert k f).items ≠ [] := by
  intro hnil
  have hmem : k ∈ (d.upsert k f).keys := mem_keys_upsert.mpr (.inl rfl)
  unfold keys at hmem
  rw [hnil] at hmem
  cases hmem

/-- What holds of all items, and of the new value, holds after the update. -/
theorem forall_upsert {d : Dict κ β} {k : κ} {f : Option β → β} {P : κ → β → Prop}
    (hd : ∀ kv ∈ d.items, P kv.1 kv.2) (hf : ∀ old, (∀ v ∈ old, P k v) → P k (f old)) :
    ∀ kv ∈ (d.upsert k f).items, P kv.1 kv.2 := by
  have hitems : ∀ items : List (κ × β), (∀ kv ∈ items, P kv.1 kv.2) →
      ∀ kv ∈ upsertItems k f items, P kv.1 kv.2 := by
    intro items
    induction items with
    | nil =>
      intro _ kv hkv
      obtain rfl : kv = (k, f none) := by simpa [upsertItems] using hkv
      exact hf none (by simp)
    | cons kv' rest ih =>
      intro hall kv hkv
      have hrest := fun kv h => hall kv (List.mem_cons_of_mem _ h)
      unfold upsertItems at hkv
      split at hkv
      · next h =>
        rcases List.mem_cons.mp hkv with rfl | hkv
        · have hold := hall kv' (by simp)
          rw [h] at hold
          exact hf _ (by simpa using hold)
        · exact hrest kv hkv
      · rcases List.mem_cons.mp hkv with rfl | hkv
        · exact hall _ (by simp)
        · exact ih hrest kv hkv
  exact hitems d.items hd

theorem get?_eq_some {d : Dict κ β} {k : κ} {v : β} (h : (k, v) ∈ d.items) : d.get? k = some v := by
  have hitems : ∀ items : List (κ × β), (items.map Prod.fst).Nodup → (k, v) ∈ items →
      items.lookup k = some v := by
    intro items hnd hmem
    induction items with
    | nil => simp at hmem
    | cons kv rest ih =>
      obtain ⟨k', v'⟩ := kv
      rw [List.map_cons, List.nodup_cons] at hnd
      rw [List.lookup_cons]
      rcases List.mem_cons.mp hmem with he | hrest
      · obtain ⟨rfl, rfl⟩ := Prod.mk.inj he
        simp
      · have hne : k ≠ k' := fun e =>
          hnd.1 (e ▸ List.mem_map.mpr ⟨(k, v), hrest, rfl⟩)
        rw [beq_false_of_ne hne]
        exact ih hnd.2 hrest
  exact hitems d.items d.nodup h

theorem mem_items_of_get? {d : Dict κ β} {k : κ} {v : β} (h : d.get? k = some v) :
    (k, v) ∈ d.items := by
  have hitems : ∀ items : List (κ × β), items.lookup k = some v → (k, v) ∈ items := by
    intro items h
    induction items with
    | nil => cases h
    | cons kv rest ih =>
      obtain ⟨k', v'⟩ := kv
      rw [List.lookup_cons] at h
      split at h
      · next hk =>
        obtain rfl : k = k' := by simpa using hk
        obtain rfl := Option.some.inj h
        exact List.mem_cons_self
      · exact List.mem_cons_of_mem _ (ih h)
  exact hitems d.items h

/-- The items of two keys. -/
theorem perm_filter_pair {d : Dict κ β} {a b : κ} (hne : a ≠ b) {v w : β}
    (ha : d.get? a = some v) (hb : d.get? b = some w) :
    (d.items.filter fun kv => decide (kv.1 = a ∨ kv.1 = b)).Perm [(a, v), (b, w)] := by
  have hnodup : d.items.Nodup := List.Nodup.of_map Prod.fst d.nodup
  have hpair : [(a, v), (b, w)].Nodup := by simp [hne]
  refine (List.perm_ext_iff_of_nodup (hnodup.filter _) hpair).mpr fun kv => ?_
  rw [List.mem_filter, decide_eq_true_iff, List.mem_cons, List.mem_singleton]
  constructor
  · intro ⟨hmem, hkey⟩
    have hget := get?_eq_some hmem
    rcases hkey with h | h
    · rw [h, ha] at hget
      exact Or.inl (Prod.ext h (Option.some.inj hget).symm)
    · rw [h, hb] at hget
      exact Or.inr (Prod.ext h (Option.some.inj hget).symm)
  · intro h
    rcases h with rfl | rfl
    · exact ⟨mem_items_of_get? ha, Or.inl rfl⟩
    · exact ⟨mem_items_of_get? hb, Or.inr rfl⟩

theorem lookup_cons_ite (k a : κ) (v : β) (rest : List (κ × β)) :
    ((a, v) :: rest).lookup k = if k = a then some v else rest.lookup k := by
  rw [List.lookup_cons]
  by_cases h : k = a
  · rw [if_pos h, h, beq_self_eq_true]
  · rw [if_neg h, beq_false_of_ne h]

theorem get?_upsert (d : Dict κ β) (k k' : κ) (f : Option β → β) :
    (d.upsert k f).get? k' = if k' = k then some (f (d.get? k)) else d.get? k' := by
  have hitems : ∀ items : List (κ × β), (upsertItems k f items).lookup k' =
      if k' = k then some (f (items.lookup k)) else items.lookup k' := by
    intro items
    induction items with
    | nil => rw [upsertItems, lookup_cons_ite, List.lookup_nil, List.lookup_nil]
    | cons kv rest ih =>
      obtain ⟨a, v⟩ := kv
      unfold upsertItems
      by_cases ha : a = k
      · subst ha
        simp only [if_true, lookup_cons_ite]
        split
        · rfl
        · rfl
      · have hka : ¬ k = a := fun e => ha e.symm
        rw [if_neg ha, lookup_cons_ite, lookup_cons_ite, lookup_cons_ite, if_neg hka, ih]
        by_cases h : k' = a
        · have hk : ¬ k' = k := fun e => ha (h.symm.trans e)
          rw [if_pos h, if_neg hk, if_pos h]
        · rw [if_neg h, if_neg h]
  exact hitems d.items

/-- Merging looks the second dictionary up first. -/
theorem get?_merge (d e : Dict κ β) (k : κ) : (d.merge e).get? k = (e.get? k).or (d.get? k) := by
  have hitems : ∀ items : List (κ × β), (items.map Prod.fst).Nodup → ∀ d : Dict κ β,
      (items.foldl (fun acc kv => acc.upsert kv.1 fun _ => kv.2) d).get? k =
        (items.lookup k).or (d.get? k) := by
    intro items hnodup
    induction items with
    | nil => exact fun _ => rfl
    | cons kv rest ih =>
      intro d
      rw [List.map_cons, List.nodup_cons] at hnodup
      rw [List.foldl_cons, ih hnodup.2, get?_upsert, lookup_cons_ite]
      by_cases hk : k = kv.1
      · have hrest : rest.lookup k = none := by
          rw [List.lookup_eq_none_iff]
          intro p hp
          have hne : k ≠ p.1 := fun e => hnodup.1 (hk ▸ e ▸ List.mem_map_of_mem hp)
          simpa using hne
        rw [hrest, if_pos hk, if_pos hk]
        rfl
      · rw [if_neg hk, if_neg hk]
  exact hitems e.items e.nodup d

/-! ## The same keys with other values -/

variable {γ : Type*}

/-- `{k: g(v) for k, v in d.items()}`. -/
def mapVal (d : Dict κ β) (g : β → γ) : Dict κ γ where
  items := d.items.map fun kv => (kv.1, g kv.2)
  nodup := by
    rw [List.map_map]
    exact d.nodup

omit [DecidableEq κ] in
theorem ext_items {d e : Dict κ β} (h : d.items = e.items) : d = e := by
  cases d
  cases e
  cases h
  rfl

instance [DecidableEq β] : DecidableEq (Dict κ β) := fun d e =>
  decidable_of_iff (d.items = e.items) ⟨ext_items, fun h => by rw [h]⟩

theorem get?_mapVal (d : Dict κ β) (g : β → γ) (k : κ) :
    (d.mapVal g).get? k = (d.get? k).map g := by
  have hitems : ∀ items : List (κ × β),
      (items.map fun kv => (kv.1, g kv.2)).lookup k = (items.lookup k).map g := by
    intro items
    induction items with
    | nil => rfl
    | cons kv rest ih =>
      rw [List.map_cons, List.lookup_cons, List.lookup_cons, ih]
      split
      · rfl
      · rfl
  exact hitems d.items

/-- Mapping the values commutes with an update that does. -/
theorem mapVal_upsert {d : Dict κ β} {k : κ} {g : β → γ} {f : Option β → β} {f' : Option γ → γ}
    (hf : ∀ old, f' (old.map g) = g (f old)) :
    (d.mapVal g).upsert k f' = (d.upsert k f).mapVal g := by
  have hitems : ∀ items : List (κ × β),
      upsertItems k f' (items.map fun kv => (kv.1, g kv.2)) =
        (upsertItems k f items).map fun kv => (kv.1, g kv.2) := by
    intro items
    induction items with
    | nil =>
      show [(k, f' none)] = [(k, g (f none))]
      rw [← hf]
      rfl
    | cons kv rest ih =>
      rw [List.map_cons, upsertItems, upsertItems]
      split
      · rw [List.map_cons, ← hf]
        rfl
      · rw [List.map_cons, ih]
  exact ext_items (hitems d.items)

/-- The item of a key, found by reading all items. -/
theorem filterMap_items_key (d : Dict κ β) (k : κ) (g : β → Option γ) :
    (d.items.filterMap fun e => if e.1 = k then g e.2 else none) =
      ((d.get? k).bind g).toList := by
  have hitems : ∀ items : List (κ × β), (items.map Prod.fst).Nodup →
      (items.filterMap fun e => if e.1 = k then g e.2 else none) =
        ((items.lookup k).bind g).toList := by
    intro items hnodup
    induction items with
    | nil => rfl
    | cons e items ih =>
      rw [List.map_cons, List.nodup_cons] at hnodup
      by_cases hk : e.1 = k
      · subst hk
        have hrest : (items.filterMap fun e' => if e'.1 = e.1 then g e'.2 else none) = [] := by
          refine List.filterMap_eq_nil_iff.mpr fun e' he' => if_neg fun heq => hnodup.1 ?_
          exact heq ▸ List.mem_map_of_mem he'
        rw [List.lookup_cons_self, List.filterMap_cons, if_pos rfl, hrest, Option.bind_some]
        cases g e.2 with
        | none => rfl
        | some c => rfl
      · rw [lookup_cons_ite k e.1 e.2, if_neg fun heq => hk heq.symm, List.filterMap_cons, if_neg hk, ih hnodup.2]
  exact hitems d.items d.nodup

/-! ## Filling a dictionary row by row -/

variable {ρ : Type*}

/-- The keys after a loop that updates one key for each row. -/
theorem mem_keys_foldl {key : ρ → κ} {f : ρ → Option β → β} {rows : List ρ} {d : Dict κ β}
    {k : κ} : k ∈ (rows.foldl (fun acc r => acc.upsert (key r) (f r)) d).keys ↔
      k ∈ d.keys ∨ ∃ r ∈ rows, key r = k := by
  induction rows generalizing d with
  | nil => simp
  | cons r rows ih =>
    rw [List.foldl_cons, ih, mem_keys_upsert]
    constructor
    · rintro ((rfl | h) | ⟨r', hr', h⟩)
      · exact Or.inr ⟨r, by simp, rfl⟩
      · exact Or.inl h
      · exact Or.inr ⟨r', by simp [hr'], h⟩
    · rintro (h | ⟨r', hr', h⟩)
      · exact Or.inl (Or.inr h)
      · rcases List.mem_cons.mp hr' with rfl | hr'
        · exact Or.inl (Or.inl h.symm)
        · exact Or.inr ⟨r', hr', h⟩

/-- What the values weigh when the update at a key adds `v`. -/
theorem sum_upsert {M : Type*} [AddCommMonoid M] (d : Dict κ β) (k : κ) {w : β → M} {v : M}
    {f : Option β → β} (hf : ∀ old, w (f old) = (old.map w).getD 0 + v) :
    ((d.upsert k f).items.map fun kv => w kv.2).sum = (d.items.map fun kv => w kv.2).sum + v := by
  have hitems : ∀ items : List (κ × β), ((upsertItems k f items).map fun kv => w kv.2).sum =
      (items.map fun kv => w kv.2).sum + v := by
    intro items
    induction items with
    | nil => simp [upsertItems, hf]
    | cons kv rest ih =>
      unfold upsertItems
      split
      · simp only [List.map_cons, List.sum_cons, hf, Option.map_some, Option.getD_some]
        rw [add_right_comm]
      · simp only [List.map_cons, List.sum_cons, ih]
        rw [add_assoc]
  exact hitems d.items

/-- What the values weigh after a loop in which every row adds its own. -/
theorem sum_foldl {M : Type*} [AddCommMonoid M] {key : ρ → κ} {f : ρ → Option β → β} {w : β → M}
    {v : ρ → M} (rows : List ρ) (hf : ∀ r old, w (f r old) = (old.map w).getD 0 + v r)
    (d : Dict κ β) :
    ((rows.foldl (fun acc r => acc.upsert (key r) (f r)) d).items.map fun kv => w kv.2).sum =
      (d.items.map fun kv => w kv.2).sum + (rows.map v).sum := by
  induction rows generalizing d with
  | nil => exact (add_zero _).symm
  | cons r rows ih =>
    rw [List.foldl_cons, ih, d.sum_upsert (key r) (hf r), List.map_cons, List.sum_cons, add_assoc]

/-- A loop that updates one key for each row comes to a value only through the rows of its key. -/
theorem get?_foldl_upsert {key : ρ → κ} {f : ρ → Option β → β} (rows : List ρ) (d : Dict κ β)
    (k : κ) :
    (rows.foldl (fun acc r => acc.upsert (key r) (f r)) d).get? k =
      (rows.filter fun r => decide (key r = k)).foldl (fun old r => some (f r old)) (d.get? k) := by
  induction rows generalizing d with
  | nil => rfl
  | cons r rows ih =>
    rw [List.foldl_cons, ih, get?_upsert, List.filter_cons]
    by_cases h : k = key r
    · subst h
      simp
    · rw [if_neg h, if_neg (by simpa using fun h' => h h'.symm)]

/-- A property of items that every update of the loop keeps. -/
theorem forall_foldl {key : ρ → κ} {f : ρ → Option β → β} {P : κ → β → Prop} {rows : List ρ}
    {d : Dict κ β} (hd : ∀ kv ∈ d.items, P kv.1 kv.2)
    (hf : ∀ r ∈ rows, ∀ old, (∀ v ∈ old, P (key r) v) → P (key r) (f r old)) :
    ∀ kv ∈ (rows.foldl (fun acc r => acc.upsert (key r) (f r)) d).items, P kv.1 kv.2 := by
  induction rows generalizing d with
  | nil => exact hd
  | cons r rows ih =>
    exact ih (forall_upsert hd (hf r (by simp))) fun r' hr' => hf r' (by simp [hr'])

omit [DecidableEq κ] in
/-- `{v: k for k, v in items}`, where no value has two keys. -/
theorem get?_foldl_inverse [DecidableEq β] {items : List (κ × β)}
    (hinj : ∀ a ∈ items, ∀ b ∈ items, a.2 = b.2 → a.1 = b.1) {k : κ} {v : β} :
    (items.foldl (fun acc kv => acc.upsert kv.2 fun _ => kv.1) (empty : Dict β κ)).get? v = some k ↔
      (k, v) ∈ items := by
  induction items using List.reverseRecOn with
  | nil => simp [get?, empty]
  | append_singleton items kv ih =>
    have hsub : ∀ a ∈ items, ∀ b ∈ items, a.2 = b.2 → a.1 = b.1 := fun a ha b hb =>
      hinj a (List.mem_append_left _ ha) b (List.mem_append_left _ hb)
    rw [List.foldl_append, List.foldl_cons, List.foldl_nil, get?_upsert, List.mem_append,
      List.mem_singleton]
    split
    · next hv =>
      constructor
      · intro h
        exact Or.inr (Prod.ext (Option.some.inj h).symm hv)
      · rintro (h | h)
        · have hk := hinj (k, v) (List.mem_append_left _ h) kv
            (List.mem_append_right _ (List.mem_singleton_self kv)) hv
          exact congrArg some hk.symm
        · rw [← h]
    · next hv =>
      rw [ih hsub]
      constructor
      · exact Or.inl
      · rintro (h | h)
        · exact h
        · exact absurd (congrArg Prod.snd h) hv

/-- Counting keys: `d[k] = d.get(k, 0) + 1` for each of them. -/
theorem get?_foldl_count [BEq κ] [LawfulBEq κ] {keys : List κ} (k : κ) :
    (keys.foldl (fun acc a => acc.upsert a fun old => old.getD 0 + 1)
      (empty : Dict κ Nat)).get? k = if k ∈ keys then some (keys.count k) else none := by
  induction keys using List.reverseRecOn with
  | nil => rfl
  | append_singleton keys a ih =>
    rw [List.foldl_append, List.foldl_cons, List.foldl_nil, get?_upsert, List.count_append]
    by_cases ha : k = a
    · subst ha
      have hold : ((keys.foldl (fun acc a => acc.upsert a fun old => old.getD 0 + 1)
          (empty : Dict κ Nat)).get? k).getD 0 = keys.count k := by
        rw [ih]
        split
        · rfl
        · next hk => exact (List.count_eq_zero_of_not_mem hk).symm
      have hmem : k ∈ keys ++ [k] := List.mem_append_right _ (List.mem_singleton_self k)
      rw [if_pos rfl, if_pos hmem, hold, List.count_singleton_self]
    · have hmem : k ∈ keys ++ [a] ↔ k ∈ keys := by simp [ha]
      have hone : [a].count k = 0 := List.count_eq_zero_of_not_mem (by simp [ha])
      rw [if_neg ha, ih, hone, Nat.add_zero]
      simp only [hmem]

/-- Grouping by a key: `d.setdefault(key, []).append(val)` for each row. -/
theorem getD_get?_foldl_group {key : ρ → κ} {val : ρ → β} {rows : List ρ} {d : Dict κ (List β)}
    (k : κ) :
    ((rows.foldl (fun acc r => acc.upsert (key r) fun old => old.getD [] ++ [val r]) d).get?
        k).getD [] =
      (d.get? k).getD [] ++ (rows.filter fun r => decide (key r = k)).map val := by
  induction rows generalizing d with
  | nil => simp
  | cons r rows ih =>
    rw [List.foldl_cons, ih, get?_upsert, List.filter_cons]
    by_cases h : k = key r
    · simp [h]
    · rw [if_neg h, if_neg (by simpa using fun h' => h h'.symm)]

/-- Grouping the rows themselves. -/
theorem getD_get?_foldl_append {key : ρ → κ} {rows : List ρ} {d : Dict κ (List ρ)} (k : κ) :
    ((rows.foldl (fun acc r => acc.upsert (key r) fun old => old.getD [] ++ [r]) d).get? k).getD [] =
      (d.get? k).getD [] ++ rows.filter fun r => decide (key r = k) := by
  have h : _ = (d.get? k).getD [] ++ (rows.filter fun r => decide (key r = k)).map id :=
    getD_get?_foldl_group k
  rw [List.map_id] at h
  exact h

/-- Rows written one over another: the last one with a key stays. -/
theorem get?_foldl_overwrite {key : ρ → κ} {val : ρ → β} (rows : List ρ) (k : κ) :
    (rows.foldl (fun acc r => acc.upsert (key r) fun _ => val r) (empty : Dict κ β)).get? k =
      (rows.filter fun r => decide (key r = k)).getLast?.map val := by
  induction rows using List.reverseRecOn with
  | nil => rfl
  | append_singleton rows r ih =>
    rw [List.foldl_append, List.foldl_cons, List.foldl_nil, get?_upsert, List.filter_append]
    by_cases h : k = key r
    · rw [if_pos h, List.filter_cons_of_pos (by simpa using h.symm), List.filter_nil,
        List.getLast?_concat]
      rfl
    · rw [if_neg h, List.filter_cons_of_neg (by simpa using fun h' => h h'.symm), List.filter_nil,
        List.append_nil, ih]

/-- What stays at a key was written by a row with it. -/
theorem exists_of_get?_foldl_overwrite {key : ρ → κ} {val : ρ → β} {rows : List ρ} {k : κ} {v : β}
    (h : (rows.foldl (fun acc r => acc.upsert (key r) fun _ => val r)
      (empty : Dict κ β)).get? k = some v) : ∃ r ∈ rows, key r = k ∧ val r = v := by
  rw [get?_foldl_overwrite, Option.map_eq_some_iff] at h
  obtain ⟨r, hr, hval⟩ := h
  obtain ⟨hr, hkey⟩ := List.mem_filter.mp (List.mem_of_getLast? hr)
  exact ⟨r, hr, of_decide_eq_true hkey, hval⟩

theorem get?_foldl_overwrite_eq_none_iff {key : ρ → κ} {val : ρ → β} {rows : List ρ} {k : κ} :
    (rows.foldl (fun acc r => acc.upsert (key r) fun _ => val r)
      (empty : Dict κ β)).get? k = none ↔ ∀ r ∈ rows, key r ≠ k := by
  rw [get?_foldl_overwrite, Option.map_eq_none_iff, List.getLast?_eq_none_iff,
    List.filter_eq_nil_iff]
  simp only [decide_eq_true_eq, ne_eq]

/-- `d.setdefault(key, val)` for each row: the first one with a key stays. -/
theorem get?_foldl_setdefault {key : ρ → κ} {val : ρ → β} (rows : List ρ) (k : κ) :
    (rows.foldl (fun acc r => acc.setdefault (key r) (val r)) (empty : Dict κ β)).get? k =
      (rows.find? fun r => decide (key r = k)).map val := by
  have hfirst : ∀ (rows : List ρ) (old : Option β),
      rows.foldl (fun old r => some (old.getD (val r))) old = old.or (rows.head?.map val) := by
    intro rows
    induction rows with
    | nil => exact fun old => (Option.or_none).symm
    | cons r rows ih =>
      intro old
      rw [List.foldl_cons, ih]
      cases old with
      | none => rfl
      | some v => rfl
  have hnone : (empty : Dict κ β).get? k = none := rfl
  unfold setdefault
  rw [get?_foldl_upsert, hfirst, List.head?_filter, hnone, Option.none_or]

/-- A new key goes to the end. -/
theorem items_upsert_of_notMem {d : Dict κ β} {k : κ} (h : k ∉ d.keys) (f : Option β → β) :
    (d.upsert k f).items = d.items ++ [(k, f none)] := by
  have hitems : ∀ items : List (κ × β), k ∉ items.map Prod.fst →
      upsertItems k f items = items ++ [(k, f none)] := by
    intro items hk
    induction items with
    | nil => rfl
    | cons kv rest ih =>
      rw [List.map_cons, List.mem_cons, not_or] at hk
      unfold upsertItems
      rw [if_neg fun heq => hk.1 heq.symm, ih hk.2, List.cons_append]
  exact hitems d.items h

/-- Rows with keys that are new, each another: they are appended in their order. -/
theorem items_foldl_of_nodup {key : ρ → κ} {f : ρ → Option β → β} {rows : List ρ} {d : Dict κ β}
    (hnodup : (rows.map key).Nodup) (hnew : ∀ r ∈ rows, key r ∉ d.keys) :
    (rows.foldl (fun acc r => acc.upsert (key r) (f r)) d).items =
      d.items ++ rows.map fun r => (key r, f r none) := by
  induction rows generalizing d with
  | nil => rw [List.foldl_nil, List.map_nil, List.append_nil]
  | cons r rows ih =>
    rw [List.map_cons, List.nodup_cons] at hnodup
    rw [List.foldl_cons, ih hnodup.2, items_upsert_of_notMem (hnew r (by simp)),
      List.map_cons, List.append_assoc]
    · rfl
    · intro r' hr' hmem
      rcases mem_keys_upsert.mp hmem with heq | hmem
      · exact hnodup.1 (heq ▸ List.mem_map_of_mem hr')
      · exact hnew r' (by simp [hr']) hmem

/-- Rows with a key each: every one of them stays. -/
theorem get?_foldl_of_nodup {key : ρ → κ} {val : ρ → β} {rows : List ρ}
    (h : (rows.map key).Nodup) {k : κ} {v : β} :
    (rows.foldl (fun acc r => acc.upsert (key r) fun _ => val r) (empty : Dict κ β)).get? k =
        some v ↔ ∃ r ∈ rows, key r = k ∧ val r = v := by
  constructor
  · exact exists_of_get?_foldl_overwrite
  · rintro ⟨r, hr, hkey, hval⟩
    rw [get?_foldl_overwrite, Option.map_eq_some_iff]
    have hmem : r ∈ rows.filter fun r => decide (key r = k) :=
      List.mem_filter.mpr ⟨hr, decide_eq_true hkey⟩
    obtain ⟨r', hr'⟩ := Option.ne_none_iff_exists'.mp
      (mt List.getLast?_eq_none_iff.mp (List.ne_nil_of_mem hmem))
    obtain ⟨hmem', hkey'⟩ := List.mem_filter.mp (List.mem_of_getLast? hr')
    have heq : r' = r :=
      List.inj_on_of_nodup_map h hmem' hr ((of_decide_eq_true hkey').trans hkey.symm)
    exact ⟨r', hr', by rw [heq, hval]⟩

end Dict

end Lib
