import Mathlib.Data.List.Nodup
import Mathlib.Algebra.BigOperators.Group.List.Basic
import Mathlib.Algebra.Group.Pi.Lemmas

/-
  Tables of a relational database, by their rows in the order in which they came in. A table has
  one unique key, and carries the proof that no two of its rows have the same: an insert that
  would break it is refused, an update may not touch it.

  Where the key is an auto-increment counter, an inserted row gets the next number, so an insert
  never meets a row with its key.

  An upsert that adds the counts of its row adds them to the tally at its key, whether the row is
  new or not; so the tally after many upserts is a sum, in any order.

  Nothing here is about a program in particular.
-/

namespace Lib

section

variable {α κ : Type*}

/-- The rows of a table with the unique key `key`. -/
structure Table (key : α → κ) where
  rows : List α
  nodup : (rows.map key).Nodup

namespace Table

variable {key : α → κ}

/-- The table without rows. -/
def empty : Table key := ⟨[], List.nodup_nil⟩

@[ext] theorem ext {t t' : Table key} (h : t.rows = t'.rows) : t = t' := by
  cases t
  cases t'
  cases h
  rfl

instance [DecidableEq α] : DecidableEq (Table key) :=
  fun t t' => decidable_of_iff (t.rows = t'.rows) ⟨ext, fun h => h ▸ rfl⟩

/-- A key names one row. -/
theorem eq_of_key_eq (t : Table key) {r r' : α} (hr : r ∈ t.rows) (hr' : r' ∈ t.rows)
    (h : key r = key r') : r = r' :=
  List.inj_on_of_nodup_map t.nodup hr hr' h

/-! ## INSERT -/

variable [DecidableEq κ]

/-- `INSERT`: refused when a row with the key is there. -/
def insert (r : α) (t : Table key) : Option (Table key) :=
  if h : key r ∈ t.rows.map key then none
  else some ⟨t.rows ++ [r], by
    rw [List.map_append, List.map_singleton]
    exact List.nodup_append.mpr ⟨t.nodup, List.nodup_singleton _, fun a ha b hb => by
      rw [List.mem_singleton] at hb
      exact fun e => h (by rw [← hb, ← e]; exact ha)⟩⟩

theorem rows_of_insert {r : α} {t t' : Table key} (h : t.insert r = some t') :
    t'.rows = t.rows ++ [r] := by
  unfold insert at h
  split at h
  · simp at h
  · rw [← Option.some.inj h]

theorem key_notMem_of_insert {r : α} {t t' : Table key} (h : t.insert r = some t') :
    key r ∉ t.rows.map key := by
  intro hmem
  rw [insert, dif_pos hmem] at h
  simp at h

theorem key_mem_of_insert_eq_none {r : α} {t : Table key} (h : t.insert r = none) :
    key r ∈ t.rows.map key := by
  by_contra hfresh
  rw [insert, dif_neg hfresh] at h
  simp at h

/-- `executemany(INSERT)`: one row after the other, refused when one of them is. -/
def insertAll : List α → Table key → Option (Table key)
  | [], t => some t
  | r :: rs, t => (t.insert r).bind (insertAll rs)

theorem rows_of_insertAll {rs : List α} {t t' : Table key} (h : insertAll rs t = some t') :
    t'.rows = t.rows ++ rs := by
  induction rs generalizing t with
  | nil =>
    obtain rfl := Option.some.inj h
    exact (List.append_nil _).symm
  | cons r rs ih =>
    obtain ⟨t₁, h₁, h₂⟩ := Option.bind_eq_some_iff.mp h
    rw [ih h₂, rows_of_insert h₁, List.append_assoc]
    rfl

/-! ## UPDATE and DELETE -/

/-- `UPDATE … SET f WHERE p`, for an `f` that leaves the key alone. -/
def update (p : α → Bool) (f : α → α) (hf : ∀ r, key (f r) = key r) (t : Table key) : Table key :=
  ⟨t.rows.map fun r => if p r then f r else r, by
    have h : ((t.rows.map fun r => if p r then f r else r).map key) = t.rows.map key := by
      rw [List.map_map]
      refine List.map_congr_left fun r _ => ?_
      simp only [Function.comp]
      split
      · exact hf r
      · rfl
    rw [h]
    exact t.nodup⟩

omit [DecidableEq κ] in
theorem update_rows (p : α → Bool) (f : α → α) (hf : ∀ r, key (f r) = key r) (t : Table key) :
    (t.update p f hf).rows = t.rows.map fun r => if p r then f r else r := rfl

section Views

variable {β : Type*} (g : α → β) (p : α → Bool) (f : α → α) (hf : ∀ r, key (f r) = key r)
  (t : Table key)

omit [DecidableEq κ] in
/-- What a view `g` of the rows sees of an update: it does `f'` where `q` holds of what is seen. -/
theorem map_update (q : β → Bool) (f' : β → β) (hq : ∀ r, p r = q (g r))
    (h : ∀ r, g (f r) = f' (g r)) :
    (t.update p f hf).rows.map g = (t.rows.map g).map fun e => if q e then f' e else e := by
  rw [update_rows, List.map_map, List.map_map]
  refine List.map_congr_left fun r _ => ?_
  simp only [Function.comp, ← hq]
  split
  · exact h r
  · rfl

omit [DecidableEq κ] in
/-- A view that the update leaves alone. -/
theorem map_update_same (h : ∀ r, g (f r) = g r) : (t.update p f hf).rows.map g = t.rows.map g := by
  rw [update_rows, List.map_map]
  refine List.map_congr_left fun r _ => ?_
  simp only [Function.comp]
  split
  · exact h r
  · rfl

end Views

/-- `DELETE … WHERE p`. -/
def delete (p : α → Bool) (t : Table key) : Table key :=
  ⟨t.rows.filter fun r => !p r, t.nodup.sublist (List.filter_sublist.map key)⟩

/-- `SELECT … WHERE key = k`. -/
def find (k : κ) (t : Table key) : Option α := t.rows.find? fun r => key r = k

theorem find_eq_some {t : Table key} {k : κ} {r : α} :
    t.find k = some r ↔ r ∈ t.rows ∧ key r = k := by
  constructor
  · intro h
    exact ⟨List.mem_of_find?_eq_some h, by simpa using List.find?_some h⟩
  · rintro ⟨hr, rfl⟩
    unfold find
    cases h : t.rows.find? fun r' => key r' = key r with
    | none => exact absurd (List.find?_eq_none.mp h r hr) (by simp)
    | some r' =>
      have hkey : key r' = key r := by simpa using List.find?_some h
      rw [t.eq_of_key_eq (List.mem_of_find?_eq_some h) hr hkey]

theorem find_eq_none {t : Table key} {k : κ} : t.find k = none ↔ ∀ r ∈ t.rows, key r ≠ k := by
  simp [find]

theorem find_insert {r : α} {t t' : Table key} (h : t.insert r = some t') (k : κ) :
    t'.find k = if key r = k then some r else t.find k := by
  have hfresh := key_notMem_of_insert h
  unfold find
  rw [rows_of_insert h, List.find?_append]
  by_cases hk : key r = k
  · have hnone : (t.rows.find? fun r' => key r' = k) = none := by
      rw [List.find?_eq_none]
      intro r' hr' he
      exact hfresh (List.mem_map.mpr ⟨r', hr', (of_decide_eq_true he).trans hk.symm⟩)
    simp [hnone, hk]
  · simp [hk]

/-- An update is seen in the row it finds. -/
theorem find_update (p : α → Bool) (f : α → α) (hf : ∀ r, key (f r) = key r) (t : Table key)
    (k : κ) : (t.update p f hf).find k = (t.find k).map fun r => if p r then f r else r := by
  unfold find
  rw [update_rows, List.find?_map]
  have hkey : ((fun r => decide (key r = k)) ∘ fun r => if p r then f r else r) =
      fun r => decide (key r = k) := by
    funext r
    simp only [Function.comp]
    split <;> simp [hf]
  rw [hkey]

omit [DecidableEq κ] in
/-- Updates of one key after the other, with no key twice, are one update of all of them. -/
theorem rows_foldl_update [DecidableEq κ] (f : α → α) (hf : ∀ r, key (f r) = key r) (ks : List κ)
    (hks : ks.Nodup) (t : Table key) :
    (ks.foldl (fun t k => t.update (fun r => key r = k) f hf) t).rows =
      t.rows.map fun r => if key r ∈ ks then f r else r := by
  induction ks generalizing t with
  | nil => simp
  | cons k ks ih =>
    obtain ⟨hk, hks⟩ := List.nodup_cons.mp hks
    rw [List.foldl_cons, ih hks, update_rows, List.map_map]
    apply List.map_congr_left
    intro r _
    by_cases hr : key r = k
    · subst hr
      simp [hf, hk]
    · simp [hr]

/-! ## INSERT … ON DUPLICATE KEY UPDATE -/

/-- The row is inserted; when its key is there, the row that has it becomes what `f` makes of it. -/
def upsert (r : α) (f : α → α) (hf : ∀ r, key (f r) = key r) (t : Table key) : Table key :=
  (t.insert r).getD (t.update (fun r' => key r' = key r) f hf)

section Upsert

variable {r r' : α} {f : α → α} {hf : ∀ r, key (f r) = key r} {t : Table key}

/-- Rows of other keys are left alone. -/
theorem mem_upsert_of_ne (h : key r' ≠ key r) : r' ∈ (t.upsert r f hf).rows ↔ r' ∈ t.rows := by
  unfold upsert
  cases hins : t.insert r with
  | some t' =>
    rw [Option.getD_some, rows_of_insert hins, List.mem_append, List.mem_singleton]
    exact or_iff_left fun e => h (congrArg key e)
  | none =>
    rw [Option.getD_none, update_rows, List.mem_map]
    constructor
    · rintro ⟨a, ha, rfl⟩
      by_cases hk : key a = key r
      · rw [if_pos (decide_eq_true hk), hf] at h
        exact absurd hk h
      · rw [if_neg (by simpa using hk)]
        exact ha
    · intro hr'
      exact ⟨r', hr', if_neg (by simpa using h)⟩

/-- The row of the key is the one that came in or an old one updated. -/
theorem mem_upsert_self (h : r' ∈ (t.upsert r f hf).rows) (hk : key r' = key r) :
    r' = r ∨ ∃ a ∈ t.rows, key a = key r ∧ r' = f a := by
  unfold upsert at h
  cases hins : t.insert r with
  | some t' =>
    rw [hins, Option.getD_some, rows_of_insert hins, List.mem_append, List.mem_singleton] at h
    rcases h with h | h
    · exact absurd (hk ▸ List.mem_map_of_mem h) (key_notMem_of_insert hins)
    · exact .inl h
  | none =>
    rw [hins, Option.getD_none, update_rows, List.mem_map] at h
    obtain ⟨a, ha, rfl⟩ := h
    by_cases hka : key a = key r
    · rw [if_pos (decide_eq_true hka)]
      exact .inr ⟨a, ha, hka, rfl⟩
    · rw [if_neg (by simpa using hka)] at hk
      exact absurd hk hka

end Upsert

/-- Rows with distinct keys that the table does not have go in. -/
theorem exists_insertAll {rs : List α} {t : Table key} (hrs : (rs.map key).Nodup)
    (hfresh : ∀ r ∈ rs, key r ∉ t.rows.map key) : ∃ t', insertAll rs t = some t' := by
  induction rs generalizing t with
  | nil => exact ⟨t, rfl⟩
  | cons r rs ih =>
    rw [List.map_cons, List.nodup_cons] at hrs
    cases hins : t.insert r with
    | none => exact absurd (key_mem_of_insert_eq_none hins) (hfresh r List.mem_cons_self)
    | some t₁ =>
      obtain ⟨t', ht'⟩ := ih (t := t₁) hrs.2 fun r' hr' hmem => by
        rw [rows_of_insert hins, List.map_append, List.mem_append, List.map_singleton,
          List.mem_singleton] at hmem
        rcases hmem with hmem | hmem
        · exact hfresh r' (List.mem_cons_of_mem _ hr') hmem
        · exact hrs.1 (hmem ▸ List.mem_map_of_mem hr')
      exact ⟨t', by rw [insertAll, hins]; exact ht'⟩

end Table

end

/-! ## Keys that are counted up -/

variable {α : Type*} {key : α → Nat}

/-- A table with its counter. -/
structure AutoTable (key : α → Nat) where
  nextId : Nat
  table : Table key
  fresh : ∀ r ∈ table.rows, key r < nextId

namespace AutoTable

/-- The rows. -/
def rows (t : AutoTable key) : List α := t.table.rows

/-- No rows yet. -/
def empty : AutoTable key := ⟨1, Table.empty, by intro r hr; cases hr⟩

/-- `INSERT`, with the next number. -/
def insert (t : AutoTable key) (row : Nat → α) (hrow : ∀ n, key (row n) = n) : AutoTable key where
  nextId := t.nextId + 1
  table := ⟨t.rows ++ [row t.nextId], by
    rw [List.map_append, List.map_singleton, hrow, List.nodup_append]
    refine ⟨t.table.nodup, List.nodup_singleton _, ?_⟩
    intro id hid n hn
    obtain ⟨r, hr, rfl⟩ := List.mem_map.mp hid
    rw [List.mem_singleton.mp hn]
    exact Nat.ne_of_lt (t.fresh r hr)⟩
  fresh := by
    intro r hr
    rcases List.mem_append.mp hr with hr | hr
    · exact Nat.lt_succ_of_lt (t.fresh r hr)
    · rw [List.mem_singleton.mp hr, hrow]
      exact Nat.lt_succ_self _

/-- `UPDATE … SET f WHERE q`, for an `f` that leaves the number alone. -/
def update (t : AutoTable key) (q : α → Bool) (f : α → α) (hf : ∀ r, key (f r) = key r) :
    AutoTable key where
  nextId := t.nextId
  table := t.table.update q f hf
  fresh := by
    intro r hr
    rw [Table.update_rows] at hr
    obtain ⟨r', hr', rfl⟩ := List.mem_map.mp hr
    split
    · rw [hf]
      exact t.fresh r' hr'
    · exact t.fresh r' hr'

/-- `INSERT … ON DUPLICATE KEY UPDATE`, where `q` holds of the rows that another unique key finds
    to be duplicates. -/
def upsert (t : AutoTable key) (q : α → Bool) (row : Nat → α) (hrow : ∀ n, key (row n) = n)
    (f : α → α) (hf : ∀ r, key (f r) = key r) : AutoTable key :=
  if t.rows.any q then t.update q f hf else t.insert row hrow

variable {t : AutoTable key} {row : Nat → α} {hrow : ∀ n, key (row n) = n} {q : α → Bool}
  {f : α → α} {hf : ∀ r, key (f r) = key r}

@[simp] theorem rows_insert : (t.insert row hrow).rows = t.rows ++ [row t.nextId] := rfl

@[simp] theorem rows_update :
    (t.update q f hf).rows = t.rows.map fun r => if q r then f r else r := rfl

theorem rows_upsert_pos (h : t.rows.any q = true) :
    (t.upsert q row hrow f hf).rows = t.rows.map fun r => if q r then f r else r := by
  unfold upsert
  rw [if_pos h, rows_update]

theorem rows_upsert_neg (h : t.rows.any q = false) :
    (t.upsert q row hrow f hf).rows = t.rows ++ [row t.nextId] := by
  unfold upsert
  rw [if_neg (by rw [h]; exact Bool.false_ne_true), rows_insert]

/-- A row after the upsert: the new one, one that was updated, or one as it was. -/
theorem mem_upsert {r : α} (h : r ∈ (t.upsert q row hrow f hf).rows) :
    (t.rows.any q = false ∧ r = row t.nextId) ∨ (∃ r' ∈ t.rows, q r' = true ∧ r = f r') ∨
      (r ∈ t.rows ∧ q r = false) := by
  cases hany : t.rows.any q with
  | true =>
    rw [rows_upsert_pos hany] at h
    obtain ⟨r', hr', rfl⟩ := List.mem_map.mp h
    cases hq : q r' with
    | true => exact .inr (.inl ⟨r', hr', hq, if_pos rfl⟩)
    | false => exact .inr (.inr ⟨hr', hq⟩)
  | false =>
    rw [rows_upsert_neg hany] at h
    rcases List.mem_append.mp h with hr | hr
    · have hq := List.any_eq_false.mp hany r hr
      exact .inr (.inr ⟨hr, by simpa using hq⟩)
    · exact .inl ⟨rfl, List.mem_singleton.mp hr⟩

end AutoTable

end Lib

/-! ## Tallies -/

namespace Lib.Table

variable {α κ M : Type*} {key : α → κ} [DecidableEq κ] [AddCommMonoid M]

/-- What the table counts at each key; `g` is what a row counts. -/
def tally (g : α → M) (t : Table key) : κ → M := fun k => (t.find k).elim 0 g

/-- What rows count together. -/
def total (key : α → κ) (g : α → M) (rows : List α) : κ → M :=
  (rows.map fun r => (Pi.single (key r) (g r) : κ → M)).sum

@[simp] theorem total_nil (g : α → M) : total key g [] = 0 := rfl

theorem total_cons (g : α → M) (r : α) (rows : List α) :
    total key g (r :: rows) = Pi.single (key r) (g r) + total key g rows := rfl

theorem total_append (g : α → M) (rows rows' : List α) :
    total key g (rows ++ rows') = total key g rows + total key g rows' := by
  unfold total
  rw [List.map_append, List.sum_append]

theorem tally_upsert {g : α → M} {r : α} {f : α → α} {hf : ∀ r, key (f r) = key r}
    (h : ∀ a, g (f a) = g a + g r) (t : Table key) :
    (t.upsert r f hf).tally g = t.tally g + Pi.single (key r) (g r) := by
  funext k
  show ((t.upsert r f hf).find k).elim 0 g =
    (t.find k).elim 0 g + (Pi.single (key r) (g r) : κ → M) k
  unfold upsert
  cases hins : t.insert r with
  | some t' =>
      rw [Option.getD_some, find_insert hins]
      by_cases hk : key r = k
      · subst hk
        have hnone : t.find (key r) = none := by
          rw [find_eq_none]
          intro a ha heq
          exact key_notMem_of_insert hins (List.mem_map.mpr ⟨a, ha, heq⟩)
        rw [if_pos rfl, hnone, Pi.single_eq_same]
        exact (zero_add (g r)).symm
      · rw [if_neg hk, Pi.single_eq_of_ne (Ne.symm hk), add_zero]
  | none =>
      rw [Option.getD_none, find_update]
      obtain ⟨a, ha, hkey⟩ := List.mem_map.mp (key_mem_of_insert_eq_none hins)
      by_cases hk : key r = k
      · subst hk
        rw [find_eq_some.mpr ⟨ha, hkey⟩, Pi.single_eq_same]
        show g (if decide (key a = key r) then f a else a) = g a + g r
        rw [if_pos (decide_eq_true hkey), h]
      · rw [Pi.single_eq_of_ne (Ne.symm hk), add_zero]
        cases hfind : t.find k with
        | none => rfl
        | some b =>
            obtain ⟨-, hb⟩ := find_eq_some.mp hfind
            show g (if decide (key b = key r) then f b else b) = g b
            rw [if_neg]
            simpa [hb] using Ne.symm hk

/-- Upserts of rows, each adding its counts. -/
theorem tally_foldl_upsert {g : α → M} {f : α → α → α} (hf : ∀ r a, key (f r a) = key a)
    (h : ∀ r a, g (f r a) = g a + g r) (rows : List α) (t : Table key) :
    (rows.foldl (fun t r => t.upsert r (f r) (hf r)) t).tally g = t.tally g + total key g rows := by
  induction rows generalizing t with
  | nil => simp
  | cons r rows ih => rw [List.foldl_cons, ih, tally_upsert (h r), total_cons, add_assoc]

end Lib.Table
