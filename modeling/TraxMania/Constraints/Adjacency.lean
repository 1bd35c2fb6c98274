import Mathlib.Data.String.Basic
import TraxMania.Grid.Cell
import TraxMania.Lib.Dict
import TraxMania.Parsers.Pipeline

/-
  Adjacencies of one map (`src/constraints/nodes.py`, `src/constraints/extractor.py`): the key of a
  block, and the unordered pairs of keys that lie in cells with a common face.
-/

namespace TraxMania.Constraints
open Lib Grid Parsers Storage

variable {φ : Type}

/-! ## Block keys -/

/-- A `BlockKey` that passed `__post_init__`. -/
structure BlockKey where
  family : String
  type : String
  variant : String
  family_ne : family ≠ ""
  type_ne : type ≠ ""
  unseparated : '|' ∉ family.toList ∧ '|' ∉ type.toList ∧ '|' ∉ variant.toList
  deriving DecidableEq

/-- `BlockKey(…)`. -/
def BlockKey.make (family type variant : String) : Except Exc BlockKey :=
  if hfamily : family = "" then .error ⟨none, "family must be a non-empty string"⟩
  else if htype : type = "" then .error ⟨none, "type must be a non-empty string"⟩
  else if hsep : '|' ∉ family.toList ∧ '|' ∉ type.toList ∧ '|' ∉ variant.toList then
    .ok ⟨family, type, variant, hfamily, htype, hsep⟩
  else .error ⟨none, "key components must not contain the separator '|'"⟩

/-- `normalized_key`. -/
def BlockKey.normalizedKey (k : BlockKey) : String := k.family ++ "|" ++ k.type ++ "|" ++ k.variant

/-- `_block_key_from_placement`. -/
def blockKeyFromPlacement (p : BlockRow φ) : Except Exc BlockKey :=
  BlockKey.make p.blockFamily p.blockType (p.variant.getD "")

/-- `BlockKey` accepts the placement. -/
def Accepted (p : BlockRow φ) : Prop :=
  p.blockFamily ≠ "" ∧ p.blockType ≠ "" ∧ '|' ∉ p.blockFamily.toList ∧ '|' ∉ p.blockType.toList ∧
    '|' ∉ (p.variant.getD "").toList

instance (p : BlockRow φ) : Decidable (Accepted p) :=
  inferInstanceAs (Decidable (_ ∧ _ ∧ _ ∧ _ ∧ _))

theorem blockKeyFromPlacement_of_accepted {p : BlockRow φ} (h : Accepted p) :
    ∃ key, blockKeyFromPlacement p = .ok key := by
  obtain ⟨hfamily, htype, hsep⟩ := h
  exact ⟨_, by rw [blockKeyFromPlacement, BlockKey.make, dif_neg hfamily, dif_neg htype, dif_pos hsep]⟩

/-- `order_pair`. -/
def orderPair (a b : BlockKey) : BlockKey × BlockKey :=
  if a.normalizedKey ≤ b.normalizedKey then (a, b) else (b, a)

theorem orderPair_le (a b : BlockKey) :
    (orderPair a b).1.normalizedKey ≤ (orderPair a b).2.normalizedKey := by
  unfold orderPair
  split
  · assumption
  · next h => exact le_of_lt (not_le.mp h)

/-- An `AdjacencyObservation` that passed `__post_init__`. -/
structure AdjacencyObservation where
  a : BlockKey
  b : BlockKey
  snapshotId : String
  isBenchmarkStrong : Bool
  isBrokenFixture : Bool
  ordered : a.normalizedKey ≤ b.normalizedKey
  deriving DecidableEq

/-- `pair_id`. -/
def AdjacencyObservation.pair (o : AdjacencyObservation) : String × String :=
  (o.a.normalizedKey, o.b.normalizedKey)

/-! ## Extraction -/

/-- `_AXIS_NEIGHBOR_OFFSETS`. -/
def axisNeighborOffsets : List Cell :=
  [⟨1, 0, 0⟩, ⟨-1, 0, 0⟩, ⟨0, 1, 0⟩, ⟨0, -1, 0⟩, ⟨0, 0, 1⟩, ⟨0, 0, -1⟩]

/-- The first loop of `extract_adjacencies`, which fills `by_cell`. -/
def cellKeys : List (BlockRow φ) → Dict Cell BlockKey → Except Exc (Dict Cell BlockKey)
  | [], byCell => .ok byCell
  | p :: placements, byCell =>
    match p.isFree, p.x, p.y, p.z with
    | false, some x, some y, some z =>
      match blockKeyFromPlacement p with
      | .ok key => cellKeys placements (byCell.setdefault ⟨x, y, z⟩ key)
      | .error e => .error e
    | _, _, _, _ => cellKeys placements byCell

/-- The pairs that the second loop comes upon, in its order. -/
def neighborPairs (byCell : Dict Cell BlockKey) : List (BlockKey × BlockKey) :=
  byCell.items.flatMap fun (cell, key) =>
    axisNeighborOffsets.filterMap fun offset =>
      (byCell.get? (cell + offset)).map fun neighborKey => (key, neighborKey)

/-- How the observations of a map are marked. -/
structure Marks where
  snapshotId : String
  isBenchmarkStrong : Bool
  isBrokenFixture : Bool
  deriving DecidableEq

def observation (m : Marks) (key neighborKey : BlockKey) : AdjacencyObservation :=
  ⟨(orderPair key neighborKey).1, (orderPair key neighborKey).2, m.snapshotId,
    m.isBenchmarkStrong, m.isBrokenFixture, orderPair_le key neighborKey⟩

instance lawfulBEq_pair : LawfulBEq (String × String) := inferInstance

/-- One turn of the second loop; `seen_pairs` are the pairs of `out`. -/
def addObservation (out : List AdjacencyObservation) (o : AdjacencyObservation) :
    List AdjacencyObservation :=
  if o.pair ∈ out.map AdjacencyObservation.pair then out else out ++ [o]

def extractAdjacencies (placements : List (BlockRow φ)) (m : Marks) :
    Except Exc (List AdjacencyObservation) :=
  match cellKeys placements Dict.empty with
  | .error e => .error e
  | .ok byCell =>
    .ok (((neighborPairs byCell).map fun (a, b) => observation m a b).foldl addObservation [])

/-- `unique_block_keys`. -/
def uniqueBlockKeys (observations : List AdjacencyObservation) : List BlockKey :=
  (observations.foldl (fun seen o =>
    (seen.setdefault o.a.normalizedKey o.a).setdefault o.b.normalizedKey o.b)
    (Dict.empty : Dict String BlockKey)).items.map Prod.snd

/-! ## What an extraction gives -/

theorem cellKeys_of_accepted {placements : List (BlockRow φ)} (h : ∀ p ∈ placements, Accepted p)
    (byCell : Dict Cell BlockKey) : ∃ byCell', cellKeys placements byCell = .ok byCell' := by
  induction placements generalizing byCell with
  | nil => exact ⟨byCell, rfl⟩
  | cons p placements ih =>
    have hrest := fun q hq => h q (List.mem_cons_of_mem p hq)
    obtain ⟨key, hkey⟩ := blockKeyFromPlacement_of_accepted (h p List.mem_cons_self)
    unfold cellKeys
    split
    · rw [hkey]
      exact ih hrest _
    · exact ih hrest byCell

/-- An extraction raises only at a placement that `BlockKey` rejects. -/
theorem extractAdjacencies_of_accepted {placements : List (BlockRow φ)}
    (h : ∀ p ∈ placements, Accepted p) (m : Marks) :
    ∃ observations, extractAdjacencies placements m = .ok observations := by
  obtain ⟨byCell, hcells⟩ := cellKeys_of_accepted h Dict.empty
  exact ⟨_, by rw [extractAdjacencies, hcells]⟩

theorem addObservation_nodup {out : List AdjacencyObservation} {o : AdjacencyObservation}
    (h : (out.map AdjacencyObservation.pair).Nodup) :
    ((addObservation out o).map AdjacencyObservation.pair).Nodup := by
  unfold addObservation
  split
  · exact h
  · next hfresh =>
    rw [List.map_append, List.nodup_append]
    refine ⟨h, List.nodup_singleton _, fun p hp q hq => ?_⟩
    rw [List.map_singleton, List.mem_singleton] at hq
    exact fun e => hfresh (hq ▸ e ▸ hp)

/-- A map gives every adjacency once. -/
theorem extractAdjacencies_nodup {placements : List (BlockRow φ)} {m : Marks}
    {observations : List AdjacencyObservation}
    (h : extractAdjacencies placements m = .ok observations) :
    (observations.map AdjacencyObservation.pair).Nodup := by
  have hloop : ∀ (os out : List AdjacencyObservation), (out.map AdjacencyObservation.pair).Nodup →
      ((os.foldl addObservation out).map AdjacencyObservation.pair).Nodup := by
    intro os
    induction os with
    | nil => exact fun out hout => hout
    | cons o os ih => exact fun out hout => ih _ (addObservation_nodup hout)
  unfold extractAdjacencies at h
  split at h
  · simp at h
  · rw [← Except.ok.inj h]
    exact hloop _ [] List.nodup_nil

/-- The keys of a dictionary of blocks by their normalized keys. -/
theorem mem_keys_setdefault {d : Dict String BlockKey} {k : String} {key : BlockKey} :
    k ∈ (d.setdefault key.normalizedKey key).keys ↔ k = key.normalizedKey ∨ k ∈ d.keys :=
  Dict.mem_keys_upsert

/-- Both blocks of every observation are among the unique keys. -/
theorem mem_uniqueBlockKeys {observations : List AdjacencyObservation} {o : AdjacencyObservation}
    (h : o ∈ observations) :
    o.a.normalizedKey ∈ (uniqueBlockKeys observations).map BlockKey.normalizedKey ∧
      o.b.normalizedKey ∈ (uniqueBlockKeys observations).map BlockKey.normalizedKey := by
  have hkeys : ∀ (os : List AdjacencyObservation) (d : Dict String BlockKey) (k : String),
      (k ∈ d.keys ∨ ∃ o ∈ os, k = o.a.normalizedKey ∨ k = o.b.normalizedKey) →
      k ∈ (os.foldl (fun seen o =>
        (seen.setdefault o.a.normalizedKey o.a).setdefault o.b.normalizedKey o.b) d).keys := by
    intro os
    induction os with
    | nil =>
      intro d k hk
      rcases hk with hk | ⟨o, ho, _⟩
      · exact hk
      · exact absurd ho List.not_mem_nil
    | cons o os ih =>
      intro d k hk
      refine ih _ k ?_
      rw [mem_keys_setdefault, mem_keys_setdefault]
      rcases hk with hk | ⟨o', ho', hk⟩
      · exact .inl (.inr (.inr hk))
      · rcases List.mem_cons.mp ho' with rfl | ho'
        · exact .inl (hk.elim (fun hk => .inr (.inl hk)) .inl)
        · exact .inr ⟨o', ho', hk⟩
  have hnamed : ∀ (os : List AdjacencyObservation) (d : Dict String BlockKey),
      (∀ kv ∈ d.items, kv.2.normalizedKey = kv.1) →
      ∀ kv ∈ (os.foldl (fun seen o =>
        (seen.setdefault o.a.normalizedKey o.a).setdefault o.b.normalizedKey o.b) d).items,
        kv.2.normalizedKey = kv.1 := by
    have hset : ∀ (d : Dict String BlockKey) (key : BlockKey),
        (∀ kv ∈ d.items, kv.2.normalizedKey = kv.1) →
        ∀ kv ∈ (d.setdefault key.normalizedKey key).items, kv.2.normalizedKey = kv.1 := by
      intro d key hd
      refine Dict.forall_upsert (P := fun (k : String) (v : BlockKey) => v.normalizedKey = k) hd
        fun old hold => ?_
      cases old with
      | none => rfl
      | some v => exact hold v rfl
    intro os
    induction os with
    | nil => exact fun d hd => hd
    | cons o os ih => exact fun d hd => ih _ (hset _ o.b (hset d o.a hd))
  have hmem : ∀ k, (∃ o ∈ observations, k = o.a.normalizedKey ∨ k = o.b.normalizedKey) →
      k ∈ (uniqueBlockKeys observations).map BlockKey.normalizedKey := by
    intro k hk
    obtain ⟨v, hv⟩ := Dict.mem_keys.mp (hkeys observations Dict.empty k (.inr hk))
    have hname := hnamed observations Dict.empty (fun kv hkv => absurd hkv List.not_mem_nil) _ hv
    exact List.mem_map.mpr ⟨v, List.mem_map.mpr ⟨(k, v), hv, rfl⟩, hname⟩
  exact ⟨hmem _ ⟨o, h, .inl rfl⟩, hmem _ ⟨o, h, .inr rfl⟩⟩

end TraxMania.Constraints
