import TraxMania.Generation.Grammar
import TraxMania.Learning.DrivenTransitions
import Mathlib.Algebra.Order.Field.Rat

/-
  `generation/driven_prior.py`: the successors of a block type that enough driven routes confirm,
  each with its share of the best one.
-/

namespace TraxMania.Generation

open TraxMania.Learning Lib

/-! ## The table -/

/-- `MIN_MAPS`. -/
def minMaps : Nat := 3

/-- One turn of the loop of `load`. -/
def loadRow (table : Dict String (Dict String Nat)) (t : MinedTransition × Nat × Nat) :
    Dict String (Dict String Nat) :=
  if t.1.link ≠ .contact then table
  else if t.1.joint.fromType = t.1.joint.toType then table
  else if t.2.2 < minMaps then table
  else
    table.upsert (String.ofList t.1.joint.fromType) fun row =>
      (row.getD Dict.empty).upsert (String.ofList t.1.joint.toType) fun old =>
        max (old.getD 0) t.2.2

/-- `max` of nothing. -/
inductive PriorError where
  | valueError
deriving DecidableEq

/-- The entry of one `from_type`. -/
def addSuccessors (acc : Dict String (Dict String ℚ)) (e : String × Dict String Nat) :
    Except PriorError (Dict String (Dict String ℚ)) :=
  match (e.2.items.map Prod.snd).max? with
  | none => .error .valueError
  | some best =>
    if best ≤ 0 then .ok acc
    else .ok (acc.upsert e.1 fun _ => e.2.mapVal fun n => (n : ℚ) / (best : ℚ))

/-- `DrivenPrior(table)`. -/
def DrivenPrior.ofTable (table : Dict String (Dict String Nat)) :
    Except PriorError (DrivenPrior ℚ) :=
  (table.items.foldlM addSuccessors Dict.empty).map DrivenPrior.mk

/-- `DrivenPrior.load(path)`, for the transitions of the artifact. -/
def DrivenPrior.load (transitions : List (MinedTransition × Nat × Nat)) :
    Except PriorError (DrivenPrior ℚ) :=
  DrivenPrior.ofTable (transitions.foldl loadRow Dict.empty)

/-! ## What the table holds -/

/-- The rows that `load` does not skip. -/
def Confirmed (t : MinedTransition × Nat × Nat) : Prop :=
  t.1.link = .contact ∧ t.1.joint.fromType ≠ t.1.joint.toType ∧ minMaps ≤ t.2.2

/-- An edge of the table, with its maps. -/
def Edge (table : Dict String (Dict String Nat)) (a b : String) (n : Nat) : Prop :=
  ∃ row, table.get? a = some row ∧ row.get? b = some n

/-- The rows of a table have entries, each of enough maps. -/
def Supported (table : Dict String (Dict String Nat)) : Prop :=
  ∀ e ∈ table.items, e.2.items ≠ [] ∧ ∀ kv ∈ e.2.items, minMaps ≤ kv.2

theorem loadRow_of_not_confirmed {t : MinedTransition × Nat × Nat} (h : ¬ Confirmed t)
    (table : Dict String (Dict String Nat)) : loadRow table t = table := by
  unfold loadRow
  split
  · rfl
  · next hlink =>
    split
    · rfl
    · next htypes =>
      split
      · rfl
      · next hmaps => exact absurd ⟨not_not.mp hlink, htypes, not_lt.mp hmaps⟩ h

theorem loadRow_of_confirmed {t : MinedTransition × Nat × Nat} (h : Confirmed t)
    (table : Dict String (Dict String Nat)) :
    loadRow table t = table.upsert (String.ofList t.1.joint.fromType) fun row =>
      (row.getD Dict.empty).upsert (String.ofList t.1.joint.toType) fun old =>
        max (old.getD 0) t.2.2 := by
  obtain ⟨hlink, htypes, hmaps⟩ := h
  unfold loadRow
  rw [if_neg (not_not.mpr hlink), if_neg htypes, if_neg (not_lt.mpr hmaps)]

theorem supported_loadRow {table : Dict String (Dict String Nat)} (h : Supported table)
    (t : MinedTransition × Nat × Nat) : Supported (loadRow table t) := by
  by_cases ht : Confirmed t
  · rw [loadRow_of_confirmed ht]
    refine Dict.forall_upsert
      (P := fun _ (row : Dict String Nat) => row.items ≠ [] ∧ ∀ kv ∈ row.items, minMaps ≤ kv.2) h
      fun old hold => ⟨Dict.items_upsert_ne_nil _ _ _, ?_⟩
    refine Dict.forall_upsert (P := fun _ n => minMaps ≤ n) ?_
      fun _ _ => le_trans ht.2.2 (le_max_right _ _)
    cases old with
    | none =>
      intro kv hkv
      cases hkv
    | some row => exact (hold row rfl).2
  · rw [loadRow_of_not_confirmed ht]
    exact h

theorem edge_loadRow (table : Dict String (Dict String Nat)) (t : MinedTransition × Nat × Nat)
    (a b : String) : (∃ n, Edge (loadRow table t) a b n) ↔
      (∃ n, Edge table a b n) ∨
        Confirmed t ∧ String.ofList t.1.joint.fromType = a ∧ String.ofList t.1.joint.toType = b := by
  by_cases ht : Confirmed t
  · rw [loadRow_of_confirmed ht]
    simp only [Edge, Dict.get?_upsert, ht, true_and]
    by_cases ha : a = String.ofList t.1.joint.fromType
    · subst ha
      simp only [if_pos, Option.some.injEq, exists_eq_left', Dict.get?_upsert, true_and]
      by_cases hb : b = String.ofList t.1.joint.toType
      · subst hb
        simp
      · rw [if_neg hb]
        have hne : ¬ String.ofList t.1.joint.toType = b := fun h => hb h.symm
        cases table.get? (String.ofList t.1.joint.fromType) with
        | none => simp [hne, Dict.empty, Dict.get?]
        | some row => simp [hne]
    · have hne : ¬ String.ofList t.1.joint.fromType = a := fun h => ha h.symm
      simp only [if_neg ha, hne, false_and, or_false]
  · rw [loadRow_of_not_confirmed ht]
    simp only [ht, false_and, or_false]

/-- What the loop of `load` builds. -/
theorem table_of_transitions (transitions : List (MinedTransition × Nat × Nat)) :
    Supported (transitions.foldl loadRow Dict.empty) ∧
      ∀ a b, (∃ n, Edge (transitions.foldl loadRow Dict.empty) a b n) ↔
        ∃ t ∈ transitions, Confirmed t ∧ String.ofList t.1.joint.fromType = a ∧
          String.ofList t.1.joint.toType = b := by
  induction transitions using List.reverseRecOn with
  | nil =>
    refine ⟨fun e he => ?_, fun a b => ⟨?_, ?_⟩⟩
    · cases he
    · rintro ⟨n, row, hrow, -⟩
      cases hrow
    · rintro ⟨t, ht, -⟩
      cases ht
  | append_singleton transitions t ih =>
    rw [List.foldl_append, List.foldl_cons, List.foldl_nil]
    refine ⟨supported_loadRow ih.1 t, fun a b => ?_⟩
    rw [edge_loadRow, ih.2 a b]
    simp only [List.mem_append, List.mem_singleton, or_and_right, exists_or, exists_eq_left]

/-! ## The shares -/

/-- One row as shares of its best. -/
def sharesOf (row : Dict String Nat) : Dict String ℚ :=
  row.mapVal fun n => (n : ℚ) / (((row.items.map Prod.snd).max?.getD 0 : Nat) : ℚ)

theorem best_pos {row : Dict String Nat} (hne : row.items ≠ [])
    (hmaps : ∀ kv ∈ row.items, minMaps ≤ kv.2) :
    ∃ best, (row.items.map Prod.snd).max? = some best ∧ 0 < best := by
  obtain ⟨best, hbest⟩ : ∃ best, (row.items.map Prod.snd).max? = some best := by
    refine Option.ne_none_iff_exists'.mp fun hnone => hne ?_
    exact List.map_eq_nil_iff.mp (List.max?_eq_none_iff.mp hnone)
  obtain ⟨kv, hkv, rfl⟩ := List.mem_map.mp (List.max?_mem hbest)
  have h := hmaps kv hkv
  unfold minMaps at h
  exact ⟨kv.2, hbest, by omega⟩

/-- On a supported table the constructor raises nothing and keeps every row. -/
theorem ofTable_of_supported {table : Dict String (Dict String Nat)} (h : Supported table) :
    ∃ prior, DrivenPrior.ofTable table = .ok prior ∧
      ∀ a, prior.shares.get? a = (table.get? a).map sharesOf := by
  have hstep : ∀ (items : List (String × Dict String Nat)) (acc : Dict String (Dict String ℚ)),
      (∀ e ∈ items, e.2.items ≠ [] ∧ ∀ kv ∈ e.2.items, minMaps ≤ kv.2) →
      items.foldlM addSuccessors acc =
        .ok (items.foldl (fun acc e => acc.upsert e.1 fun _ => sharesOf e.2) acc) := by
    intro items
    induction items with
    | nil => exact fun acc _ => rfl
    | cons e items ih =>
      intro acc hitems
      have he := hitems e List.mem_cons_self
      obtain ⟨best, hbest, hpos⟩ := best_pos he.1 he.2
      have hadd : addSuccessors acc e = .ok (acc.upsert e.1 fun _ => sharesOf e.2) := by
        unfold addSuccessors sharesOf
        simp only [hbest, Option.getD_some]
        exact if_neg (by omega)
      rw [List.foldlM_cons, hadd, List.foldl_cons]
      exact ih _ fun e' he' => hitems e' (List.mem_cons_of_mem _ he')
  refine ⟨⟨table.items.foldl (fun acc e => acc.upsert e.1 fun _ => sharesOf e.2) Dict.empty⟩,
    ?_, fun a => ?_⟩
  · unfold DrivenPrior.ofTable
    rw [hstep table.items _ h]
    rfl
  · refine Option.ext fun row => ?_
    rw [Dict.get?_foldl_of_nodup table.nodup, Option.map_eq_some_iff]
    constructor
    · rintro ⟨e, he, rfl, rfl⟩
      exact ⟨e.2, Dict.get?_eq_some he, rfl⟩
    · rintro ⟨row', hrow', rfl⟩
      exact ⟨(a, row'), Dict.mem_items_of_get? hrow', rfl, rfl⟩

theorem share_eq (p : DrivenPrior ℚ) (fromType toType : String) :
    p.share fromType toType =
      if fromType = toType then 0
      else (((p.shares.get? fromType).getD Dict.empty).get? toType).getD 0 := by
  have hzero : (0.0 : ℚ) = 0 := by norm_num
  unfold DrivenPrior.share
  rw [hzero]

/-- `load` gives a share to exactly the successors that a row confirms. -/
theorem share_pos_iff (transitions : List (MinedTransition × Nat × Nat)) :
    ∃ prior, DrivenPrior.load transitions = .ok prior ∧
      ∀ a b, 0 < prior.share a b ↔
        ∃ t ∈ transitions, Confirmed t ∧ String.ofList t.1.joint.fromType = a ∧
          String.ofList t.1.joint.toType = b := by
  obtain ⟨hsupported, hedges⟩ := table_of_transitions transitions
  obtain ⟨prior, hprior, hget⟩ := ofTable_of_supported hsupported
  refine ⟨prior, hprior, fun a b => ?_⟩
  rw [← hedges a b]
  rw [share_eq, hget]
  by_cases hab : a = b
  · rw [if_pos hab]
    constructor
    · exact fun h => absurd h (lt_irrefl 0)
    · intro hedge
      obtain ⟨t, -, ht, rfl, rfl⟩ := (hedges a b).mp hedge
      exact absurd (String.ofList_injective hab) ht.2.1
  · rw [if_neg hab]
    unfold Edge
    cases hrow : (transitions.foldl loadRow Dict.empty).get? a with
    | none => simp [Dict.empty, Dict.get?]
    | some row =>
      have hitems := hsupported _ (Dict.mem_items_of_get? hrow)
      obtain ⟨best, hbest, hpos⟩ := best_pos hitems.1 hitems.2
      simp only [Option.map_some, Option.getD_some, Option.some.injEq, exists_eq_left', sharesOf,
        Dict.get?_mapVal, hbest]
      cases hn : row.get? b with
      | none => simp
      | some n =>
        have hmaps := hitems.2 _ (Dict.mem_items_of_get? hn)
        unfold minMaps at hmaps
        have hn : 0 < n := by omega
        simp only [Option.map_some, Option.getD_some, Option.some.injEq, exists_eq', iff_true]
        exact div_pos (Nat.cast_pos.mpr hn) (Nat.cast_pos.mpr hpos)

end TraxMania.Generation
