import TraxMania.Lib.Dict
import TraxMania.Lib.Extreme
import TraxMania.Lib.Firsts
import TraxMania.Lib.Table
import Mathlib.Data.String.Basic
import Mathlib.Data.List.MinMax
import Mathlib.Analysis.SpecialFunctions.Log.Basic

/-
  The cross-map family-pair weights of the evidence rows (`update_pattern_weights`): the pairs are
  counted in SQL, under the collation of the column, and looked up in Python, by code points. The
  rows are walked in ranges of ids.

  A row gets the weight of its pair exactly when the database names the pair of its group in the
  order in which Python looks it up.
-/

namespace TraxMania.Corridor

open Lib Lib.Extreme

/-! ## Rows -/

/-- A row of `block_placements`. -/
structure FamilyRow where
  id : Int
  blockFamily : String

/-- A row of `traversability_edge_evidence`, with its weight. -/
structure WeightedRow (φ : Type) where
  id : Int
  srcBlockId : Int
  dstBlockId : Int
  classificationVersion : String
  patternWeight : φ

/-- A row of `chunk_fetch_sql`. -/
structure PairRow where
  id : Int
  famSrc : String
  famDst : String
deriving DecidableEq

abbrev WeightTable (φ : Type) := Table (WeightedRow.id (φ := φ))

/-! ## The database's comparisons -/

/-- What the server does with family names: `key` is the collation, which `LEAST`, `GREATEST` and
    `GROUP BY` go by, and `named` the row that a group shows. -/
structure Collation (κ : Type) [LinearOrder κ] where
  key : String → κ
  least : String → String → String
  greatest : String → String → String
  named : List (String × String) → String × String
  least_mem : ∀ a b, least a b = a ∨ least a b = b
  greatest_mem : ∀ a b, greatest a b = a ∨ greatest a b = b
  key_least : ∀ a b, key (least a b) = min (key a) (key b)
  key_greatest : ∀ a b, key (greatest a b) = max (key a) (key b)
  named_mem : ∀ group, group ≠ [] → named group ∈ group

section Update

variable {φ κ : Type} [LinearOrder κ] (sql : Collation κ)

/-- `LEAST(bp1.block_family, bp2.block_family), GREATEST(…)`. -/
def Collation.pair (row : PairRow) : String × String :=
  (sql.least row.famSrc row.famDst, sql.greatest row.famSrc row.famDst)

/-- What `GROUP BY fam_a, fam_b` goes by. -/
def Collation.group (pair : String × String) : κ × κ := (sql.key pair.1, sql.key pair.2)

/-- The row joined with its two placements, where it is of the version and both exist. -/
def joinRow (placements : Table FamilyRow.id) (version : String) (r : WeightedRow φ) :
    Option PairRow :=
  if r.classificationVersion = version then
    match placements.find r.srcBlockId, placements.find r.dstBlockId with
    | some bp1, some bp2 => some ⟨r.id, bp1.blockFamily, bp2.blockFamily⟩
    | _, _ => none
  else none

/-- The rows of the join. -/
def joinRows (placements : Table FamilyRow.id) (version : String) (rows : List (WeightedRow φ)) :
    List PairRow := rows.filterMap (joinRow placements version)

/-- `_compute_family_pair_counts`. -/
def computeFamilyPairCounts (joined : List PairRow) : List ((String × String) × Nat) :=
  let pairs := joined.map sql.pair
  (pairs.map sql.group).dedup.map fun g =>
    let members := pairs.filter fun p => decide (sql.group p = g)
    (sql.named members, members.length)

/-! ## The update -/

variable [Field φ] (log : φ → φ)

/-- `_normalize_pattern_weight(count, max_count)`. -/
def normalizePatternWeight (count maxCount : Nat) : φ :=
  if maxCount = 0 then 0 else log ((count : φ) + 1) / log ((maxCount : φ) + 1)

/-- `max(n for _, _, n in pair_counts)`. -/
def maxCountOf (pairCounts : List ((String × String) × Nat)) : Nat :=
  (pairCounts.map Prod.snd).foldl max 0

/-- `weights`. -/
def weightsOf (pairCounts : List ((String × String) × Nat)) : Dict (String × String) φ :=
  pairCounts.foldl (fun weights pc => weights.upsert pc.1 fun _ =>
    normalizePatternWeight log pc.2 (maxCountOf pairCounts)) Dict.empty

/-- `(fa, fb) if fa <= fb else (fb, fa)`. -/
def sortedPair (row : PairRow) : String × String :=
  if row.famSrc ≤ row.famDst then (row.famSrc, row.famDst) else (row.famDst, row.famSrc)

/-- What the walk has done: the table, and the parameters of all its updates. -/
structure WalkState (φ : Type) where
  table : WeightTable φ
  updates : List (φ × Int)

/-- `_UPDATE_PATTERN_WEIGHT_SQL`. -/
def setWeight (t : WeightTable φ) (p : φ × Int) : WeightTable φ :=
  t.update (fun r => decide (r.id = p.2)) (fun r => { r with patternWeight := p.1 }) fun _ => rfl

/-- `_flush_pattern_weight_batch(conn, batch)`. -/
def flushPatternWeightBatch (s : WalkState φ) (batch : List (φ × Int)) : WalkState φ :=
  ⟨batch.foldl setWeight s.table, s.updates ++ batch⟩

/-- The body of `for row in rows`. -/
def bufferRow (batchSize : Nat) (weightOf : PairRow → φ) (s : WalkState φ × List (φ × Int))
    (row : PairRow) : WalkState φ × List (φ × Int) :=
  let buffer := s.2 ++ [(weightOf row, row.id)]
  if buffer.length ≥ batchSize then (flushPatternWeightBatch s.1 buffer, []) else (s.1, buffer)

/-- One chunk. -/
def updateChunk (batchSize : Nat) (weightOf : PairRow → φ) (s : WalkState φ) (rows : List PairRow) :
    WalkState φ :=
  let out := rows.foldl (bufferRow batchSize weightOf) (s, [])
  if out.2 = [] then out.1 else flushPatternWeightBatch out.1 out.2

/-- `chunk_fetch_sql`, for the ids from `lo` to `hi`. -/
def fetchChunk (placements : Table FamilyRow.id) (version : String) (t : WeightTable φ)
    (lo hi : Int) : List PairRow :=
  joinRows placements version (t.rows.filter fun r => decide (lo ≤ r.id ∧ r.id ≤ hi))

/-- `chunk_size`. -/
def chunkSize (batchSize : Nat) : Nat := max 1 (batchSize * 2)

theorem chunkSize_pos (batchSize : Nat) : 0 < chunkSize batchSize := le_max_left 1 _

/-- `while lo_id <= max_id`. -/
def walk (placements : Table FamilyRow.id) (version : String) (batchSize : Nat)
    (weightOf : PairRow → φ) (maxId lo : Int) (s : WalkState φ) : WalkState φ :=
  if lo ≤ maxId then
    let hi := lo + chunkSize batchSize - 1
    walk placements version batchSize weightOf maxId (hi + 1)
      (updateChunk batchSize weightOf s (fetchChunk placements version s.table lo hi))
  else s
termination_by (maxId + 1 - lo).toNat
decreasing_by
  have h := chunkSize_pos batchSize
  omega

/-- `PatternWeightStats`. -/
structure PatternWeightStats where
  familyPairsSeen : Nat
  maxPairCount : Nat
  edgesUpdated : Nat

/-- `SELECT MIN(id), MAX(id)`. -/
def idBounds (version : String) (rows : List (WeightedRow φ)) : Option (Int × Int) :=
  let ids := (rows.filter fun r => decide (r.classificationVersion = version)).map WeightedRow.id
  match ids.min?, ids.max? with
  | some minId, some maxId => some (minId, maxId)
  | _, _ => none

/-- `update_pattern_weights(conn, classification_version=…, batch_size=…)`. -/
def updatePatternWeights (placements : Table FamilyRow.id) (version : String) (batchSize : Nat)
    (t : WeightTable φ) : WalkState φ × PatternWeightStats :=
  let pairCounts := computeFamilyPairCounts sql (joinRows placements version t.rows)
  if pairCounts = [] then (⟨t, []⟩, ⟨0, 0, 0⟩)
  else
    let maxCount := maxCountOf pairCounts
    let weights := weightsOf log pairCounts
    let weightOf := fun row => (weights.get? (sortedPair row)).getD 0
    match idBounds version t.rows with
    | none => (⟨t, []⟩, ⟨pairCounts.length, maxCount, 0⟩)
    | some (minId, maxId) =>
      let out := walk placements version batchSize weightOf maxId minId ⟨t, []⟩
      (out, ⟨pairCounts.length, maxCount, out.updates.length⟩)

end Update

/-! ## The walk -/

section Walk

variable {φ : Type}

/-- The last update of a row stays. -/
theorem find_setWeights (us : List (φ × Int)) (t : WeightTable φ) (i : Int) :
    (us.foldl setWeight t).find i = (t.find i).map fun r =>
      match (us.filter fun u => decide (u.2 = i)).getLast? with
      | none => r
      | some u => { r with patternWeight := u.1 } := by
  induction us using List.reverseRecOn with
  | nil =>
    exact Option.map_id'.symm
  | append_singleton us u ih =>
    rw [List.foldl_append, List.foldl_cons, List.foldl_nil, List.filter_append]
    unfold setWeight
    rw [Table.find_update]
    change Option.map _ ((us.foldl setWeight t).find i) = _
    rw [ih, Option.map_map]
    cases hfind : t.find i with
    | none => rfl
    | some r =>
      have hid : r.id = i := (Table.find_eq_some.mp hfind).2
      rw [Option.map_some, Option.map_some]
      refine congrArg some ?_
      by_cases hu : u.2 = i
      · have hkeep : [u].filter (fun u => decide (u.2 = i)) = [u] :=
          List.filter_cons_of_pos (decide_eq_true hu)
        rw [hkeep, List.getLast?_concat]
        dsimp only [Function.comp]
        cases (us.filter fun u => decide (u.2 = i)).getLast? with
        | none => exact if_pos (decide_eq_true (hid.trans hu.symm))
        | some u' => exact if_pos (decide_eq_true (hid.trans hu.symm))
      · have hdrop : [u].filter (fun u => decide (u.2 = i)) = [] :=
          List.filter_cons_of_neg (by simpa using hu)
        have hne : ¬ r.id = u.2 := fun h => hu (h.symm.trans hid)
        rw [hdrop, List.append_nil]
        dsimp only [Function.comp]
        cases (us.filter fun u => decide (u.2 = i)).getLast? with
        | none => exact if_neg (by simpa using hne)
        | some u' => exact if_neg (by simpa using hne)

variable {placements : Table FamilyRow.id} {version : String}

theorem joinRow_id {r : WeightedRow φ} {row : PairRow}
    (h : joinRow placements version r = some row) : row.id = r.id := by
  unfold joinRow at h
  split at h
  · split at h
    · rw [← Option.some.inj h]
    · cases h
  · cases h

/-- A weight does not matter to the join. -/
theorem joinRows_setWeight (t : WeightTable φ) (p : φ × Int) :
    joinRows placements version (setWeight t p).rows = joinRows placements version t.rows := by
  unfold setWeight joinRows
  rw [Table.update_rows, List.filterMap_map]
  refine List.filterMap_congr fun r _ => ?_
  dsimp only [Function.comp]
  split
  · rfl
  · rfl

theorem joinRows_setWeights (t : WeightTable φ) (us : List (φ × Int)) :
    joinRows placements version (us.foldl setWeight t).rows =
      joinRows placements version t.rows := by
  induction us generalizing t with
  | nil => rfl
  | cons u us ih => rw [List.foldl_cons, ih, joinRows_setWeight]

/-- A chunk is the part of the join with its ids. -/
theorem fetchChunk_eq (t : WeightTable φ) (lo hi : Int) :
    fetchChunk placements version t lo hi =
      (joinRows placements version t.rows).filter fun r => decide (lo ≤ r.id ∧ r.id ≤ hi) := by
  unfold fetchChunk joinRows
  induction t.rows with
  | nil => rfl
  | cons r rows ih =>
    cases hrow : joinRow placements version r with
    | none =>
      rw [List.filterMap_cons_none hrow, List.filter_cons, ← ih]
      split
      · rw [List.filterMap_cons_none hrow]
      · rfl
    | some row =>
      rw [List.filterMap_cons_some hrow, List.filter_cons, List.filter_cons, joinRow_id hrow]
      split
      · rw [List.filterMap_cons_some hrow, ih]
      · exact ih

/-- No id is joined twice. -/
theorem joinRows_nodup (t : WeightTable φ) :
    ((joinRows placements version t.rows).map PairRow.id).Nodup := by
  have hsub : ((joinRows placements version t.rows).map PairRow.id).Sublist
      (t.rows.map WeightedRow.id) := by
    unfold joinRows
    induction t.rows with
    | nil => exact List.Sublist.refl _
    | cons r rows ih =>
      cases hrow : joinRow placements version r with
      | none =>
        rw [List.filterMap_cons_none hrow, List.map_cons]
        exact ih.cons _
      | some row =>
        rw [List.filterMap_cons_some hrow, List.map_cons, List.map_cons, joinRow_id hrow]
        exact ih.cons_cons _
  exact t.nodup.sublist hsub

/-- The entry of a row. -/
def entry (weightOf : PairRow → φ) (row : PairRow) : φ × Int := (weightOf row, row.id)

/-- A chunk writes its rows, whatever the size of the batches. -/
theorem updateChunk_spec (batchSize : Nat) (weightOf : PairRow → φ) (s : WalkState φ)
    (rows : List PairRow) :
    updateChunk batchSize weightOf s rows =
      flushPatternWeightBatch s (rows.map (entry weightOf)) := by
  have hflush : ∀ (s : WalkState φ) (us vs : List (φ × Int)),
      flushPatternWeightBatch (flushPatternWeightBatch s us) vs =
        flushPatternWeightBatch s (us ++ vs) := by
    intro s us vs
    unfold flushPatternWeightBatch
    rw [List.foldl_append, List.append_assoc]
  have hloop : ∀ (rows : List PairRow) (out : WalkState φ × List (φ × Int)),
      flushPatternWeightBatch (rows.foldl (bufferRow batchSize weightOf) out).1
        (rows.foldl (bufferRow batchSize weightOf) out).2 =
      flushPatternWeightBatch out.1 (out.2 ++ rows.map (entry weightOf)) := by
    intro rows
    induction rows with
    | nil =>
      intro out
      rw [List.map_nil, List.append_nil]
      rfl
    | cons row rows ih =>
      intro out
      rw [List.foldl_cons, ih, List.map_cons, List.append_cons]
      unfold bufferRow
      dsimp only
      split
      · rw [hflush, List.nil_append]
        rfl
      · rfl
  have hout := hloop rows (s, [])
  rw [List.nil_append] at hout
  unfold updateChunk
  dsimp only
  split
  · next hnil =>
    rw [hnil] at hout
    rw [← hout]
    unfold flushPatternWeightBatch
    rw [List.append_nil]
    rfl
  · exact hout

/-- The entries with an id, of the joined rows from `lo` on. -/
def entriesOf (joined : List PairRow) (weightOf : PairRow → φ) (lo i : Int) : List (φ × Int) :=
  if lo ≤ i then (joined.filter fun row => decide (row.id = i)).map (entry weightOf) else []

theorem filter_entries (joined : List PairRow) (weightOf : PairRow → φ) (i : Int) :
    (joined.map (entry weightOf)).filter (fun u => decide (u.2 = i)) =
      (joined.filter fun row => decide (row.id = i)).map (entry weightOf) := by
  rw [List.filter_map]
  rfl

/-- Rows of a range with an id. -/
theorem filter_range (joined : List PairRow) (lo hi i : Int) :
    (joined.filter fun row => decide (lo ≤ row.id ∧ row.id ≤ hi)).filter
        (fun row => decide (row.id = i)) =
      if lo ≤ i ∧ i ≤ hi then joined.filter fun row => decide (row.id = i) else [] := by
  rw [List.filter_filter]
  split
  · next hin =>
    refine List.filter_congr fun row _ => ?_
    by_cases h : row.id = i
    · rw [h, decide_eq_true hin, Bool.and_true]
    · rw [decide_eq_false h, Bool.false_and]
  · next hout =>
    rw [List.filter_eq_nil_iff]
    intro row _ h
    rw [Bool.and_eq_true, decide_eq_true_eq, decide_eq_true_eq] at h
    exact hout (h.1 ▸ h.2)

/-- A chunk has the entries of its ids. -/
theorem filter_chunk (joined : List PairRow) (weightOf : PairRow → φ) (lo hi i : Int) :
    ((joined.filter fun r => decide (lo ≤ r.id ∧ r.id ≤ hi)).map (entry weightOf)).filter
        (fun u => decide (u.2 = i)) =
      if lo ≤ i ∧ i ≤ hi then entriesOf joined weightOf lo i else [] := by
  rw [filter_entries, filter_range]
  unfold entriesOf
  split
  · next hin => rw [if_pos hin.1]
  · rfl

/-- A chunk and what follows it have all entries from `lo` on. -/
theorem entriesOf_chunk (joined : List PairRow) (weightOf : PairRow → φ) {lo hi : Int}
    (hle : lo ≤ hi + 1) (i : Int) :
    (if lo ≤ i ∧ i ≤ hi then entriesOf joined weightOf lo i else []) ++
      entriesOf joined weightOf (hi + 1) i = entriesOf joined weightOf lo i := by
  unfold entriesOf
  by_cases hin : lo ≤ i ∧ i ≤ hi
  · rw [if_pos hin, if_pos hin.1, if_neg (by omega), List.append_nil]
  · rw [if_neg hin, List.nil_append]
    by_cases hlo : lo ≤ i
    · rw [if_pos hlo, if_pos (by omega)]
    · rw [if_neg hlo, if_neg (by omega)]

/-- Past the largest id there are no entries. -/
theorem entriesOf_past {joined : List PairRow} (weightOf : PairRow → φ) {maxId lo : Int}
    (hmax : ∀ row ∈ joined, row.id ≤ maxId) (hlt : ¬ lo ≤ maxId) (i : Int) :
    entriesOf joined weightOf lo i = [] := by
  unfold entriesOf
  split
  · next hi =>
    have hnone : (joined.filter fun row => decide (row.id = i)) = [] := by
      rw [List.filter_eq_nil_iff]
      intro row hrow he
      have hid := of_decide_eq_true he
      have hle := hmax row hrow
      omega
    rw [hnone]
    rfl
  · rfl

/-- The walk writes every joined row with an id in its range once. -/
theorem walk_spec (batchSize : Nat) (weightOf : PairRow → φ) {joined : List PairRow} {maxId : Int}
    (hmax : ∀ row ∈ joined, row.id ≤ maxId) (lo : Int) (s : WalkState φ)
    (hs : joinRows placements version s.table.rows = joined) :
    ∃ us, walk placements version batchSize weightOf maxId lo s = flushPatternWeightBatch s us ∧
      ∀ i, (us.filter fun u => decide (u.2 = i)) = entriesOf joined weightOf lo i := by
  induction lo, s using walk.induct placements version batchSize weightOf maxId with
  | case1 lo s hle hi ih =>
    rw [walk, if_pos hle]
    dsimp only
    rw [updateChunk_spec] at ih ⊢
    have hchunk : fetchChunk placements version s.table lo hi = _ := fetchChunk_eq s.table lo hi
    rw [hs] at hchunk
    rw [hchunk] at ih
    obtain ⟨us, hus, hfilter⟩ := ih ((joinRows_setWeights s.table _).trans hs)
    refine ⟨((joined.filter fun r => decide (lo ≤ r.id ∧ r.id ≤ hi)).map (entry weightOf)) ++ us,
      ?_, fun i => ?_⟩
    · show walk placements version batchSize weightOf maxId (hi + 1) (flushPatternWeightBatch s
        ((fetchChunk placements version s.table lo hi).map (entry weightOf))) = _
      rw [hchunk, hus]
      unfold flushPatternWeightBatch
      rw [List.foldl_append, List.append_assoc]
    · have hpos := chunkSize_pos batchSize
      have hhi : hi + 1 = lo + chunkSize batchSize := Int.sub_add_cancel _ _
      rw [List.filter_append, hfilter, filter_chunk]
      exact entriesOf_chunk joined weightOf (by omega) i
  | case2 lo s hlt =>
    rw [walk, if_neg hlt]
    refine ⟨[], ?_, fun i => ?_⟩
    · unfold flushPatternWeightBatch
      rw [List.append_nil]
      rfl
    · exact (entriesOf_past weightOf hmax hlt i).symm

end Walk

/-! ## Pairs and groups -/

/-- The rows have the same unordered pair of families. -/
def PairRow.SamePair (r r' : PairRow) : Prop :=
  (r.famSrc = r'.famSrc ∧ r.famDst = r'.famDst) ∨ (r.famSrc = r'.famDst ∧ r.famDst = r'.famSrc)

instance (r r' : PairRow) : Decidable (r.SamePair r') := inferInstanceAs (Decidable (_ ∨ _))

/-- The number of rows with the pair of a row. -/
def pairCount (joined : List PairRow) (r : PairRow) : Nat :=
  joined.countP fun r' => decide (r'.SamePair r)

/-- The largest such number. -/
def maxPairCount (joined : List PairRow) : Nat := (joined.map (pairCount joined)).foldl max 0

theorem sortedPair_cases (r : PairRow) :
    sortedPair r = (r.famSrc, r.famDst) ∨ sortedPair r = (r.famDst, r.famSrc) := by
  unfold sortedPair
  split
  · exact .inl rfl
  · exact .inr rfl

theorem samePair_iff {r r' : PairRow} : r.SamePair r' ↔ sortedPair r = sortedPair r' := by
  unfold PairRow.SamePair sortedPair
  constructor
  · rintro (⟨hs, hd⟩ | ⟨hs, hd⟩)
    · rw [hs, hd]
    · rw [hs, hd]
      rcases lt_trichotomy r'.famSrc r'.famDst with h | h | h
      · rw [if_neg (not_le.mpr h), if_pos h.le]
      · rw [h]
      · rw [if_pos h.le, if_neg (not_le.mpr h)]
  · intro h
    split at h
    · split at h
      · exact .inl (Prod.mk.inj h)
      · exact .inr (Prod.mk.inj h)
    · split at h
      · obtain ⟨hd, hs⟩ := Prod.mk.inj h
        exact .inr ⟨hs, hd⟩
      · obtain ⟨hd, hs⟩ := Prod.mk.inj h
        exact .inl ⟨hs, hd⟩

theorem pairCount_pos {joined : List PairRow} {r : PairRow} (hr : r ∈ joined) :
    0 < pairCount joined r :=
  List.countP_pos_iff.mpr ⟨r, hr, decide_eq_true (.inl ⟨rfl, rfl⟩)⟩

theorem pairCount_le_max {joined : List PairRow} {r : PairRow} (hr : r ∈ joined) :
    pairCount joined r ≤ maxPairCount joined :=
  (le_foldl_max _ 0).2 _ (List.mem_map_of_mem hr)

section Groups

variable {κ : Type} [LinearOrder κ] (sql : Collation κ) (joined : List PairRow)

/-- The group of a row: the pairs that the database holds equal to its own. -/
def groupOf (r : PairRow) : List (String × String) :=
  (joined.map sql.pair).filter fun p => decide (sql.group p = sql.group (sql.pair r))

/-- The pair that the database shows for the group of a row. -/
def namedPair (r : PairRow) : String × String := sql.named (groupOf sql joined r)

theorem group_pair (r : PairRow) : sql.group (sql.pair r) =
    (min (sql.key r.famSrc) (sql.key r.famDst), max (sql.key r.famSrc) (sql.key r.famDst)) := by
  unfold Collation.group Collation.pair
  rw [sql.key_least, sql.key_greatest]

theorem group_pair_of_samePair {r r' : PairRow} (h : r.SamePair r') :
    sql.group (sql.pair r) = sql.group (sql.pair r') := by
  rw [group_pair, group_pair]
  rcases h with ⟨hs, hd⟩ | ⟨hs, hd⟩
  · rw [hs, hd]
  · rw [hs, hd, min_comm, max_comm]

variable {sql joined}

/-- A group shows one of its own pairs. -/
theorem group_namedPair {r : PairRow} (hr : r ∈ joined) :
    sql.group (namedPair sql joined r) = sql.group (sql.pair r) := by
  have hmem : sql.pair r ∈ groupOf sql joined r :=
    List.mem_filter.mpr ⟨List.mem_map_of_mem hr, decide_eq_true rfl⟩
  have hnamed := sql.named_mem _ (List.ne_nil_of_mem hmem)
  exact of_decide_eq_true (List.mem_filter.mp hnamed).2

theorem groupOf_congr {r r' : PairRow} (h : sql.group (sql.pair r) = sql.group (sql.pair r')) :
    groupOf sql joined r = groupOf sql joined r' := by
  unfold groupOf
  rw [h]

/-- Where a group shows the sorted pair of a row, it is the group of the row. -/
theorem group_of_named_eq {r r' : PairRow} (hr' : r' ∈ joined)
    (h : sortedPair r = namedPair sql joined r') :
    sql.group (sql.pair r) = sql.group (sql.pair r') := by
  have hnamed : sql.group (namedPair sql joined r') = _ := group_namedPair hr'
  rw [← h] at hnamed
  have hle : (sql.group (sortedPair r)).1 ≤ (sql.group (sortedPair r)).2 := by
    rw [hnamed, group_pair]
    exact min_le_max
  rw [← hnamed, group_pair]
  rcases sortedPair_cases r with hs | hs
  · rw [hs] at hle ⊢
    unfold Collation.group at hle ⊢
    rw [min_eq_left hle, max_eq_right hle]
  · rw [hs] at hle ⊢
    unfold Collation.group at hle ⊢
    rw [min_eq_right hle, max_eq_left hle]

/-- The groups are those of the rows. -/
theorem mem_computeFamilyPairCounts {pc : (String × String) × Nat} :
    pc ∈ computeFamilyPairCounts sql joined ↔
      ∃ r ∈ joined, pc = (namedPair sql joined r, (groupOf sql joined r).length) := by
  unfold computeFamilyPairCounts
  simp only [List.mem_map, List.mem_dedup]
  constructor
  · rintro ⟨g, ⟨p, ⟨r, hr, rfl⟩, rfl⟩, rfl⟩
    exact ⟨r, hr, rfl⟩
  · rintro ⟨r, hr, rfl⟩
    exact ⟨_, ⟨_, ⟨r, hr, rfl⟩, rfl⟩, rfl⟩

/-- No two groups show the same pair. -/
theorem named_nodup : ((computeFamilyPairCounts sql joined).map Prod.fst).Nodup := by
  have hgroups : (((computeFamilyPairCounts sql joined).map Prod.fst).map sql.group) =
      ((joined.map sql.pair).map sql.group).dedup := by
    unfold computeFamilyPairCounts
    rw [List.map_map, List.map_map]
    refine (List.map_congr_left fun g hg => ?_).trans (List.map_id _)
    obtain ⟨p, hp, rfl⟩ := List.mem_map.mp (List.mem_dedup.mp hg)
    obtain ⟨r, hr, rfl⟩ := List.mem_map.mp hp
    exact group_namedPair hr
  refine List.Nodup.of_map sql.group ?_
  rw [hgroups]
  exact List.nodup_dedup _

variable (sql joined) in
/-- The database shows the group of every row as the pair under which the row is looked up. -/
def NamedAsSorted : Prop := ∀ r ∈ joined, namedPair sql joined r = sortedPair r

end Groups

/-! ## The weights over the reals -/

section Weights

variable {κ : Type} [LinearOrder κ] (sql : Collation κ) (joined : List PairRow)

/-- `log(n+1) / log(m+1)`. -/
noncomputable def fairWeight (r : PairRow) : ℝ :=
  Real.log (pairCount joined r + 1) / Real.log (maxPairCount joined + 1)

/-- What Python looks up for a row. -/
noncomputable def lookedUp (r : PairRow) : ℝ :=
  ((weightsOf Real.log (computeFamilyPairCounts sql joined)).get? (sortedPair r)).getD 0

variable {sql joined}

theorem log_succ_pos {n : Nat} (h : 0 < n) : 0 < Real.log ((n : ℝ) + 1) := by
  refine Real.log_pos ?_
  have hcast : (0 : ℝ) < n := Nat.cast_pos.mpr h
  linarith

theorem fairWeight_pos {r : PairRow} (hr : r ∈ joined) : 0 < fairWeight joined r := by
  have hpos := pairCount_pos hr
  exact div_pos (log_succ_pos hpos) (log_succ_pos (lt_of_lt_of_le hpos (pairCount_le_max hr)))

/-- A row of the most common pair. -/
theorem fairWeight_of_max {r : PairRow} (hr : r ∈ joined)
    (h : pairCount joined r = maxPairCount joined) : fairWeight joined r = 1 := by
  have hpos := log_succ_pos (pairCount_pos hr)
  unfold fairWeight
  rw [← h]
  exact div_self (ne_of_gt hpos)

theorem get?_weightsOf {p : String × String} {w : ℝ} :
    (weightsOf Real.log (computeFamilyPairCounts sql joined)).get? p = some w ↔
      ∃ r ∈ joined, namedPair sql joined r = p ∧
        normalizePatternWeight Real.log (groupOf sql joined r).length
          (maxCountOf (computeFamilyPairCounts sql joined)) = w := by
  unfold weightsOf
  rw [Dict.get?_foldl_of_nodup named_nodup]
  constructor
  · rintro ⟨pc, hpc, hkey, hval⟩
    obtain ⟨r, hr, rfl⟩ := mem_computeFamilyPairCounts.mp hpc
    exact ⟨r, hr, hkey, hval⟩
  · rintro ⟨r, hr, hkey, hval⟩
    exact ⟨_, mem_computeFamilyPairCounts.mpr ⟨r, hr, rfl⟩, hkey, hval⟩

/-- A row with a weight is found under the pair that its group shows. -/
theorem named_eq_of_lookedUp {r : PairRow} (h : lookedUp sql joined r ≠ 0) :
    namedPair sql joined r = sortedPair r := by
  unfold lookedUp at h
  cases hget : (weightsOf Real.log (computeFamilyPairCounts sql joined)).get? (sortedPair r) with
  | none =>
    rw [hget] at h
    exact absurd rfl h
  | some w =>
    obtain ⟨r', hr', hnamed, -⟩ := get?_weightsOf.mp hget
    have hgroup := group_of_named_eq hr' hnamed.symm
    unfold namedPair at hnamed ⊢
    rw [groupOf_congr hgroup, hnamed]

section Agreeing

variable (hagree : NamedAsSorted sql joined)

include hagree

theorem group_eq_iff {r r' : PairRow} (hr : r ∈ joined) (hr' : r' ∈ joined) :
    sql.group (sql.pair r') = sql.group (sql.pair r) ↔ r'.SamePair r := by
  constructor
  · intro h
    rw [samePair_iff, ← hagree r' hr', ← hagree r hr]
    unfold namedPair
    rw [groupOf_congr h]
  · exact group_pair_of_samePair sql

/-- Then a group has the rows of its pair. -/
theorem groupOf_length {r : PairRow} (hr : r ∈ joined) :
    (groupOf sql joined r).length = pairCount joined r := by
  unfold groupOf pairCount
  rw [← List.countP_eq_length_filter, List.countP_map]
  refine List.countP_congr fun r' hr' => ?_
  dsimp only [Function.comp]
  rw [decide_eq_true_eq, decide_eq_true_eq]
  exact group_eq_iff hagree hr hr'

theorem maxCountOf_eq : maxCountOf (computeFamilyPairCounts sql joined) = maxPairCount joined := by
  unfold maxCountOf maxPairCount
  refine le_antisymm (foldl_max_le (Nat.zero_le _) ?_) (foldl_max_le (Nat.zero_le _) ?_)
  · intro n hn
    obtain ⟨pc, hpc, rfl⟩ := List.mem_map.mp hn
    obtain ⟨r, hr, rfl⟩ := mem_computeFamilyPairCounts.mp hpc
    dsimp only
    rw [groupOf_length hagree hr]
    exact pairCount_le_max hr
  · intro n hn
    obtain ⟨r, hr, rfl⟩ := List.mem_map.mp hn
    rw [← groupOf_length hagree hr]
    exact (le_foldl_max _ 0).2 _ (List.mem_map.mpr
      ⟨_, mem_computeFamilyPairCounts.mpr ⟨r, hr, rfl⟩, rfl⟩)

theorem lookedUp_eq {r : PairRow} (hr : r ∈ joined) :
    lookedUp sql joined r = fairWeight joined r := by
  have hget := get?_weightsOf.mpr ⟨r, hr, hagree r hr, rfl⟩
  have hmax : maxPairCount joined ≠ 0 :=
    Nat.ne_of_gt (lt_of_lt_of_le (pairCount_pos hr) (pairCount_le_max hr))
  unfold lookedUp
  rw [hget, Option.getD_some, groupOf_length hagree hr, maxCountOf_eq hagree]
  exact if_neg hmax

end Agreeing

end Weights

/-! ## What is updated -/

section Updates

variable {κ : Type} [LinearOrder κ] (sql : Collation κ) (placements : Table FamilyRow.id)
  (version : String) (batchSize : Nat) (t : WeightTable ℝ)

/-- The bounds contain the ids of the joined rows. -/
theorem idBounds_spec {row : PairRow} (hrow : row ∈ joinRows placements version t.rows) :
    ∃ minId maxId, idBounds version t.rows = some (minId, maxId) ∧
      ∀ row ∈ joinRows placements version t.rows, minId ≤ row.id ∧ row.id ≤ maxId := by
  have hids : ∀ row ∈ joinRows placements version t.rows, row.id ∈
      (t.rows.filter fun r => decide (r.classificationVersion = version)).map WeightedRow.id := by
    intro row hrow
    obtain ⟨r, hr, hjoin⟩ := List.mem_filterMap.mp hrow
    rw [joinRow_id hjoin]
    refine List.mem_map_of_mem (List.mem_filter.mpr ⟨hr, decide_eq_true ?_⟩)
    by_contra hne
    unfold joinRow at hjoin
    rw [if_neg hne] at hjoin
    cases hjoin
  have hne := List.ne_nil_of_mem (hids row hrow)
  obtain ⟨minId, hmin⟩ := Option.ne_none_iff_exists'.mp (mt List.min?_eq_none_iff.mp hne)
  obtain ⟨maxId, hmax⟩ := Option.ne_none_iff_exists'.mp (mt List.max?_eq_none_iff.mp hne)
  refine ⟨minId, maxId, ?_, fun row hrow => ⟨?_, ?_⟩⟩
  · unfold idBounds
    dsimp only
    rw [hmin, hmax]
  · exact (List.min?_eq_some_iff.mp hmin).2 _ (hids row hrow)
  · exact (List.max?_eq_some_iff.mp hmax).2 _ (hids row hrow)

/-- The updates of an id are those of the joined row with it, and the table is what they leave. -/
theorem updatePatternWeights_spec :
    ∃ us, (updatePatternWeights sql Real.log placements version batchSize t).1 =
        ⟨us.foldl setWeight t, us⟩ ∧
      ∀ i, (us.filter fun u => decide (u.2 = i)) =
        ((joinRows placements version t.rows).filter fun row => decide (row.id = i)).map
          (entry (lookedUp sql (joinRows placements version t.rows))) := by
  unfold updatePatternWeights
  dsimp only
  cases hjoined : joinRows placements version t.rows with
  | nil =>
    have hnil : computeFamilyPairCounts sql [] = [] := rfl
    rw [if_pos hnil]
    exact ⟨[], rfl, fun _ => rfl⟩
  | cons row rows =>
    have hrow : row ∈ joinRows placements version t.rows := by
      rw [hjoined]
      exact List.mem_cons_self
    have hne : computeFamilyPairCounts sql (row :: rows) ≠ [] :=
      List.ne_nil_of_mem (mem_computeFamilyPairCounts.mpr ⟨row, List.mem_cons_self, rfl⟩)
    obtain ⟨minId, maxId, hbounds, hids⟩ := idBounds_spec placements version t hrow
    rw [hjoined] at hids
    obtain ⟨us, hwalk, hfilter⟩ := walk_spec (s := ⟨t, []⟩) batchSize
      (lookedUp sql (row :: rows)) (fun row hrow => (hids row hrow).2) minId hjoined
    rw [if_neg hne, hbounds]
    refine ⟨us, hwalk, fun i => ?_⟩
    rw [hfilter]
    unfold entriesOf
    split
    · rfl
    · next hlo =>
      have hnone : ((row :: rows).filter fun row => decide (row.id = i)) = [] := by
        rw [List.filter_eq_nil_iff]
        intro row hrow he
        have hid := of_decide_eq_true he
        have := (hids row hrow).1
        omega
      rw [hnone]
      rfl

/-- Every row of the join is updated once, with what is looked up for it. -/
theorem updates_of_row {r : PairRow} (hr : r ∈ joinRows placements version t.rows) :
    ((updatePatternWeights sql Real.log placements version batchSize t).1.updates.filter
        fun u => decide (u.2 = r.id)) =
      [(lookedUp sql (joinRows placements version t.rows) r, r.id)] ∧
    (((updatePatternWeights sql Real.log placements version batchSize t).1.table.find r.id).map
        WeightedRow.patternWeight) =
      some (lookedUp sql (joinRows placements version t.rows) r) := by
  obtain ⟨us, hout, hfilter⟩ := updatePatternWeights_spec sql placements version batchSize t
  have hids : ((joinRows placements version t.rows).map PairRow.id).Nodup := joinRows_nodup t
  have hone : ((joinRows placements version t.rows).filter fun row => decide (row.id = r.id)) =
      [r] :=
    filter_key_eq (List.pairwise_map.mp hids) hr _ fun row _ => decide_eq_true_iff
  have hupdates := hfilter r.id
  rw [hone] at hupdates
  obtain ⟨stored, hstored, hjoin⟩ := List.mem_filterMap.mp hr
  have hfind : t.find r.id = some stored :=
    Table.find_eq_some.mpr ⟨hstored, (joinRow_id hjoin).symm⟩
  rw [hout]
  refine ⟨hupdates, ?_⟩
  rw [find_setWeights, hfind, hupdates]
  rfl

/-- Each row of the version with both placements is updated exactly once, and no other row. All of
    them get the weight of their pair exactly when the database shows the group of every row as the
    pair under which the row is looked up; that weight is positive, and 1 for the most common
    pair. -/
theorem pattern_weights_agree :
    (∀ u ∈ (updatePatternWeights sql Real.log placements version batchSize t).1.updates,
      ∃ r ∈ joinRows placements version t.rows, r.id = u.2) ∧
    (∀ r ∈ joinRows placements version t.rows,
      ((updatePatternWeights sql Real.log placements version batchSize t).1.updates.filter
        fun u => decide (u.2 = r.id)).length = 1) ∧
    (∀ r ∈ joinRows placements version t.rows,
      0 < fairWeight (joinRows placements version t.rows) r ∧
      (pairCount (joinRows placements version t.rows) r =
        maxPairCount (joinRows placements version t.rows) →
        fairWeight (joinRows placements version t.rows) r = 1)) ∧
    ((∀ r ∈ joinRows placements version t.rows,
        (((updatePatternWeights sql Real.log placements version batchSize t).1.table.find r.id).map
          WeightedRow.patternWeight) =
        some (fairWeight (joinRows placements version t.rows) r)) ↔
      NamedAsSorted sql (joinRows placements version t.rows)) := by
  refine ⟨fun u hu => ?_, fun r hr => ?_, fun r hr => ⟨fairWeight_pos hr, fairWeight_of_max hr⟩,
    fun h r hr => ?_, fun h r hr => ?_⟩
  · obtain ⟨us, hout, hfilter⟩ := updatePatternWeights_spec sql placements version batchSize t
    rw [hout] at hu
    have hmem : u ∈ us.filter fun v => decide (v.2 = u.2) :=
      List.mem_filter.mpr ⟨hu, decide_eq_true rfl⟩
    rw [hfilter] at hmem
    obtain ⟨r, hr, -⟩ := List.mem_map.mp hmem
    obtain ⟨hr, hid⟩ := List.mem_filter.mp hr
    exact ⟨r, hr, of_decide_eq_true hid⟩
  · rw [(updates_of_row sql placements version batchSize t hr).1]
    rfl
  · have hweight := h r hr
    rw [(updates_of_row sql placements version batchSize t hr).2] at hweight
    refine named_eq_of_lookedUp ?_
    rw [Option.some.inj hweight]
    exact ne_of_gt (fairWeight_pos hr)
  · rw [(updates_of_row sql placements version batchSize t hr).2, lookedUp_eq h hr]

end Updates

/-! ## A lower-case family -/

/-- A collation that does not tell small letters from capital ones; a group shows its first row. -/
def caseless : Collation (List Char) where
  key := fun name => name.toList.map Char.toLower
  least := fun a b =>
    if a.toList.map Char.toLower ≤ b.toList.map Char.toLower then a else b
  greatest := fun a b =>
    if b.toList.map Char.toLower ≤ a.toList.map Char.toLower then a else b
  named := fun group => group.headD ("", "")
  least_mem := by
    intro a b
    split
    · exact .inl rfl
    · exact .inr rfl
  greatest_mem := by
    intro a b
    split
    · exact .inl rfl
    · exact .inr rfl
  key_least := by
    intro a b
    split
    · next h => exact (min_eq_left h).symm
    · next h => exact (min_eq_right (le_of_not_ge h)).symm
  key_greatest := by
    intro a b
    split
    · next h => exact (max_eq_left h).symm
    · next h => exact (max_eq_right (le_of_not_ge h)).symm
  named_mem := by
    intro group h
    cases group with
    | nil => exact absurd rfl h
    | cons p group => exact List.mem_cons_self

/-- A small-letter family and a capital one. -/
def mixedFamilies : Table FamilyRow.id where
  rows := [⟨1, "platform"⟩, ⟨2, "Road"⟩]
  nodup := by decide

/-- The evidence row between them. -/
def mixedRow : WeightTable ℝ where
  rows := [⟨5, 1, 2, "v1", 0⟩]
  nodup := List.nodup_singleton _

/-- The only pair of all, and the row has the weight 0 in place of 1. -/
theorem mixed_case_weighs_nothing :
    (((updatePatternWeights caseless Real.log mixedFamilies "v1" 10000 mixedRow).1.table.find 5).map
        WeightedRow.patternWeight) = some 0 ∧
      fairWeight (joinRows mixedFamilies "v1" mixedRow.rows) ⟨5, "platform", "Road"⟩ = 1 := by
  have hjoined : joinRows mixedFamilies "v1" mixedRow.rows = [⟨5, "platform", "Road"⟩] := rfl
  have hr : (⟨5, "platform", "Road"⟩ : PairRow) ∈ joinRows mixedFamilies "v1" mixedRow.rows := by
    rw [hjoined]
    exact List.mem_cons_self
  have hnamed : namedPair caseless [⟨5, "platform", "Road"⟩] ⟨5, "platform", "Road"⟩ ≠
      sortedPair ⟨5, "platform", "Road"⟩ := by decide +kernel
  refine ⟨?_, fairWeight_of_max hr (by rw [hjoined]; decide +kernel)⟩
  rw [(updates_of_row caseless mixedFamilies "v1" 10000 mixedRow hr).2]
  refine congrArg some ?_
  by_contra hne
  have h := named_eq_of_lookedUp hne
  rw [hjoined] at h
  exact hnamed h

end TraxMania.Corridor
