import TraxMania.Generation.HalfRoutes
import Mathlib.Data.List.Pairwise

/-
  Two readers of the waypoint rows of one map: the anchors of the block-by-block generator and the
  chain of the assembler. The generator takes every row, in the order of its waypoint order and
  index; the assembler groups the rows by tag and order. They give the same chain on the maps whose
  rows already stand in chain order, one row for each anchor.
-/

namespace TraxMania.Generation.Ai

open Lib Lib.SortBy Route

/-! ## The generator's anchors -/

/-- `_ANCHOR_SQL` on the rows of one map, in the order in which the table gives them. -/
def anchorSql (rows : List CheckpointRow) : List CheckpointRow :=
  sortBy (fun r => (toLex (r.waypointOrder, r.waypointIndex) : Int ×ₗ Int))
    (rows.filter fun r => r.cell.isSome)

/-- The anchors of `_fetch_base_anchors`. -/
def fetchBaseAnchors (rows : List CheckpointRow) : List Anchor :=
  (anchorSql rows).map CheckpointRow.anchor

/-- `_is_linked_cp`. -/
def isLinkedCp (anchors : List Anchor) : Bool := anchors.any fun a => a.tag == "LinkedCheckpoint"

/-! ## Chain order -/

/-- An anchor that may stand before another one in a chain: nothing after a goal, nothing before a
    start, checkpoints in the order of their numbers. -/
def Follows (k k' : String × Int) : Prop :=
  k.1 ≠ "Goal" ∧ k'.1 ≠ "Spawn" ∧ (k.1 = "Spawn" ∨ k'.1 = "Goal" ∨ k.2 < k'.2)

instance irreflFollows : Std.Irrefl Follows where
  irrefl := by
    intro k h
    rcases h.2.2 with hs | hg | hlt
    · exact h.2.1 hs
    · exact h.1 hg
    · exact lt_irrefl _ hlt

instance antisymmFollows : Std.Antisymm Follows where
  antisymm := by
    intro k k' h h'
    exfalso
    rcases h.2.2 with hs | hg | hlt
    · exact h'.2.1 hs
    · exact h'.1 hg
    · rcases h'.2.2 with hs | hg | hlt'
      · exact h.2.1 hs
      · exact h.1 hg
      · exact lt_asymm hlt hlt'

/-- Two anchors of a chain are the same one or stand in order. -/
theorem follows_or_eq {keys : List (String × Int)} (h : keys.Pairwise Follows)
    {k k' : String × Int} (hk : k ∈ keys) (hk' : k' ∈ keys) :
    k = k' ∨ Follows k k' ∨ Follows k' k := by
  by_contra hne
  push Not at hne
  have hsymm : keys.Pairwise fun a b => Follows a b ∨ Follows b a := h.imp fun hab => Or.inl hab
  have : Std.Symm fun a b : String × Int => Follows a b ∨ Follows b a :=
    ⟨fun _ _ => Or.symm⟩
  rcases hsymm.forall hk hk' hne.1 with hab | hba
  · exact hne.2.1 hab
  · exact hne.2.2 hba

/-! ## The assembler's chain -/

/-- The keys of a detected chain. -/
def chainOf (rows : List CheckpointRow) : List (String × Int) :=
  (detectAndOrderAnchors (anchorQuery rows)).2.map Anchor.key

theorem get?_cpsSource (d : Detected) (order : Int) :
    d.cpsSource.get? order = (d.linkedCps.get? order).or (d.plainCps.get? order) := by
  unfold Detected.cpsSource
  split
  · next hlinked =>
    -- a linked map has no plain checkpoints
    have hplain : d.plainCps.items = [] := by
      unfold Detected.linked at hlinked
      simp only [Bool.and_eq_true, decide_eq_true_eq] at hlinked
      exact hlinked.1.2
    have hnone : d.plainCps.get? order = none := by rw [Dict.get?, hplain, List.lookup_nil]
    rw [hnone, Option.or_none]
  · exact Dict.get?_merge _ _ _

theorem mem_orderedCps {cps : Dict Int Anchor} {a : Anchor} :
    a ∈ Detected.orderedCps cps ↔ ∃ order, cps.get? order = some a := by
  unfold Detected.orderedCps
  rw [List.mem_filterMap]
  constructor
  · intro ⟨order, _, h⟩
    exact ⟨order, h⟩
  · intro ⟨order, h⟩
    exact ⟨order, (mem_sortBy id _ _).mpr (Dict.mem_keys.mpr ⟨a, Dict.mem_items_of_get? h⟩), h⟩

theorem orderedCps_pairwise {cps : Dict Int Anchor}
    (h : ∀ order a, cps.get? order = some a → a.order = order) :
    (Detected.orderedCps cps).Pairwise fun a b => a.order < b.order := by
  have hsorted : (sortBy id cps.keys).Pairwise (· < ·) := by
    have hnodup : (sortBy id cps.keys).Nodup :=
      (sortBy_perm id cps.keys).nodup_iff.mpr cps.keys_nodup
    exact (sortBy_pairwise id cps.keys).imp₂ (fun a b hle hne => lt_of_le_of_ne hle hne) hnodup
  unfold Detected.orderedCps
  refine List.Pairwise.filterMap _ ?_ hsorted
  intro o o' hlt a ha b hb
  rw [h o a ha, h o' b hb]
  exact hlt

/-- The loop's variables after the rows of the anchor query. -/
def detectedOf (rows : List CheckpointRow) : Detected :=
  (anchorQuery rows).foldl Detected.add Detected.none

/-- A checkpoint of one tag has this tag and the number it is filed under. -/
theorem key_of_taggedCps {rows : List CheckpointRow} {tag : String} (ht : tag ∈ anchorTags)
    {order : Int} {a : Anchor}
    (h : (fillCps (taggedRows rows tag) Dict.empty).get? order = some a) : a.key = (tag, order) :=
  get?_fillCps (fun _ hr => ((mem_taggedRows ht).mp hr).2) h

theorem get?_cpsSource_key {rows : List CheckpointRow} {order : Int} {a : Anchor}
    (h : (detectedOf rows).cpsSource.get? order = some a) :
    a.key = ("LinkedCheckpoint", order) ∨ a.key = ("Checkpoint", order) := by
  rw [get?_cpsSource, detectedOf, foldl_add_anchorQuery, Option.or_eq_some_iff] at h
  rcases h with h | ⟨-, h⟩
  · exact Or.inl (key_of_taggedCps (by decide) h)
  · exact Or.inr (key_of_taggedCps (by decide) h)

theorem chainOf_eq (rows : List CheckpointRow) :
    chainOf rows = ((taggedRows rows "Spawn").head?.map (·.anchor.key)).toList ++
      (Detected.orderedCps (detectedOf rows).cpsSource).map Anchor.key ++
      ((taggedRows rows "Goal").head?.map (·.anchor.key)).toList := by
  have hspawn : (detectedOf rows).spawn = (taggedRows rows "Spawn").head?.map CheckpointRow.anchor :=
    congrArg Detected.spawn (foldl_add_anchorQuery rows)
  have hgoal : (detectedOf rows).goal = (taggedRows rows "Goal").head?.map CheckpointRow.anchor :=
    congrArg Detected.goal (foldl_add_anchorQuery rows)
  show ((detectedOf rows).ordered).map Anchor.key = _
  rw [Detected.ordered, List.map_append, List.map_append, ← Option.toList_map, ← Option.toList_map,
    hspawn, hgoal, Option.map_map, Option.map_map]
  rfl

/-- A member of the chain: the first start row, a checkpoint, or the first goal row. -/
theorem mem_chainOf {rows : List CheckpointRow} {k : String × Int} :
    k ∈ chainOf rows ↔
      (∃ r, (taggedRows rows "Spawn").head? = some r ∧ r.anchor.key = k) ∨
        (∃ order a, (detectedOf rows).cpsSource.get? order = some a ∧ a.key = k) ∨
        ∃ r, (taggedRows rows "Goal").head? = some r ∧ r.anchor.key = k := by
  have hhead : ∀ tag, k ∈ ((taggedRows rows tag).head?.map (·.anchor.key)).toList ↔
      ∃ r, (taggedRows rows tag).head? = some r ∧ r.anchor.key = k := by
    intro tag
    rw [Option.mem_toList, Option.map_eq_some_iff]
  rw [chainOf_eq, List.mem_append, List.mem_append, hhead, hhead, List.mem_map, or_assoc]
  refine or_congr Iff.rfl (or_congr ?_ Iff.rfl)
  constructor
  · intro ⟨a, ha, hk⟩
    obtain ⟨order, horder⟩ := mem_orderedCps.mp ha
    exact ⟨order, a, horder, hk⟩
  · intro ⟨order, a, horder, hk⟩
    exact ⟨a, mem_orderedCps.mpr ⟨order, horder⟩, hk⟩

/-- The chain is in order. -/
theorem chainOf_pairwise (rows : List CheckpointRow) : (chainOf rows).Pairwise Follows := by
  have htag : ∀ tag ∈ anchorTags, ∀ k ∈ ((taggedRows rows tag).head?.map (·.anchor.key)).toList,
      k.1 = tag := by
    intro tag ht k hk
    rw [Option.mem_toList, Option.map_eq_some_iff] at hk
    obtain ⟨r, hr, rfl⟩ := hk
    exact ((mem_taggedRows ht).mp (List.mem_of_mem_head? hr)).2
  have hone : ∀ o : Option (String × Int), o.toList.Pairwise Follows := by
    intro o
    cases o with
    | none => exact List.Pairwise.nil
    | some k => exact List.pairwise_singleton _ _
  have hcps : ∀ k ∈ (Detected.orderedCps (detectedOf rows).cpsSource).map Anchor.key,
      k.1 ≠ "Spawn" ∧ k.1 ≠ "Goal" := by
    intro k hk
    obtain ⟨a, ha, rfl⟩ := List.mem_map.mp hk
    obtain ⟨order, horder⟩ := mem_orderedCps.mp ha
    rcases get?_cpsSource_key horder with h | h
    · rw [h]
      exact ⟨by simp, by simp⟩
    · rw [h]
      exact ⟨by simp, by simp⟩
  have hmid : ((Detected.orderedCps (detectedOf rows).cpsSource).map Anchor.key).Pairwise
      Follows := by
    have horders : ∀ order a, (detectedOf rows).cpsSource.get? order = some a →
        a.order = order := by
      intro order a h
      rcases get?_cpsSource_key h with h | h
      · exact congrArg Prod.snd h
      · exact congrArg Prod.snd h
    rw [List.pairwise_map]
    refine (orderedCps_pairwise horders).imp_of_mem ?_
    intro a b ha hb hlt
    exact ⟨(hcps _ (List.mem_map_of_mem ha)).2, (hcps _ (List.mem_map_of_mem hb)).1,
      Or.inr (Or.inr hlt)⟩
  rw [chainOf_eq, List.pairwise_append, List.pairwise_append]
  refine ⟨⟨hone _, hmid, ?_⟩, hone _, ?_⟩
  · intro k hk k' hk'
    have hspawn := htag "Spawn" (by decide) k hk
    exact ⟨by rw [hspawn]; simp, (hcps k' hk').1, Or.inl hspawn⟩
  · intro k hk k' hk'
    have hgoal := htag "Goal" (by decide) k' hk'
    have hk1 : k.1 ≠ "Goal" := by
      rcases List.mem_append.mp hk with hk | hk
      · rw [htag "Spawn" (by decide) k hk]
        simp
      · exact (hcps k hk).2
    exact ⟨hk1, by rw [hgoal]; simp, Or.inr (Or.inl hgoal)⟩

theorem get?_taggedCps (rows : List CheckpointRow) {tag : String} (ht : tag ∈ anchorTags)
    {order : Int} : (∃ a, (fillCps (taggedRows rows tag) Dict.empty).get? order = some a) ↔
      ∃ r ∈ rows, r.tag = tag ∧ r.waypointOrder = order := by
  constructor
  · intro ⟨a, ha⟩
    obtain ⟨r, hr, horder⟩ := (mem_keys_fillCps _ order).mp
      (Dict.mem_keys.mpr ⟨a, Dict.mem_items_of_get? ha⟩)
    exact ⟨r, ((mem_taggedRows ht).mp hr).1, ((mem_taggedRows ht).mp hr).2, horder⟩
  · intro ⟨r, hr, htag, horder⟩
    obtain ⟨a, ha⟩ := Dict.mem_keys.mp ((mem_keys_fillCps _ order).mpr
      ⟨r, (mem_taggedRows ht).mpr ⟨hr, htag⟩, horder⟩)
    exact ⟨a, Dict.get?_eq_some ha⟩

/-- What the chain names is in the rows. -/
theorem row_of_mem_chainOf {rows : List CheckpointRow} {k : String × Int} (hk : k ∈ chainOf rows) :
    ∃ r ∈ rows, r.anchor.key = k ∧ r.tag ∈ anchorTags := by
  have hhead : ∀ tag ∈ anchorTags, ∀ r, (taggedRows rows tag).head? = some r →
      r ∈ rows ∧ r.tag ∈ anchorTags := by
    intro tag ht r hr
    have hmem := (mem_taggedRows ht).mp (List.mem_of_mem_head? hr)
    exact ⟨hmem.1, hmem.2 ▸ ht⟩
  rcases mem_chainOf.mp hk with ⟨r, hr, rfl⟩ | ⟨order, a, ha, rfl⟩ | ⟨r, hr, rfl⟩
  · obtain ⟨hmem, ht⟩ := hhead "Spawn" (by decide) r hr
    exact ⟨r, hmem, rfl, ht⟩
  · rw [get?_cpsSource, detectedOf, foldl_add_anchorQuery, Option.or_eq_some_iff] at ha
    rcases ha with ha | ⟨-, ha⟩
    · obtain ⟨r, hr, hr1, hr2⟩ := (get?_taggedCps rows (by decide)).mp ⟨a, ha⟩
      exact ⟨r, hr, by rw [key_of_taggedCps (by decide) ha, ← hr1, ← hr2]; rfl,
        by rw [hr1]; decide⟩
    · obtain ⟨r, hr, hr1, hr2⟩ := (get?_taggedCps rows (by decide)).mp ⟨a, ha⟩
      exact ⟨r, hr, by rw [key_of_taggedCps (by decide) ha, ← hr1, ← hr2]; rfl,
        by rw [hr1]; decide⟩
  · obtain ⟨hmem, ht⟩ := hhead "Goal" (by decide) r hr
    exact ⟨r, hmem, rfl, ht⟩

/-! ## Rows in chain order -/

/-- The key of a row's anchor. -/
def rowKey (r : CheckpointRow) : String × Int := (r.tag, r.waypointOrder)

/-- Listed by order and index the rows are a chain: four tags only, nothing before the start or
    after the goal, one row for each checkpoint number; and linked checkpoints come with a goal and
    without plain ones. -/
structure InChainOrder (rows : List CheckpointRow) : Prop where
  tags : ∀ r ∈ rows, r.tag ∈ anchorTags
  ordered : ((anchorSql rows).map rowKey).Pairwise Follows
  linked : (∃ r ∈ rows, r.tag = "LinkedCheckpoint") → LinkedRows rows

theorem fetchBaseAnchors_keys (rows : List CheckpointRow) :
    (fetchBaseAnchors rows).map Anchor.key = (anchorSql rows).map rowKey := by
  rw [fetchBaseAnchors, List.map_map]
  rfl

theorem mem_anchorSql {rows : List CheckpointRow} (hgrid : ∀ r ∈ rows, r.cell.isSome)
    {r : CheckpointRow} : r ∈ anchorSql rows ↔ r ∈ rows := by
  unfold anchorSql
  rw [mem_sortBy, List.mem_filter]
  exact and_iff_left_of_imp (hgrid r)

theorem isLinkedCp_iff {rows : List CheckpointRow} (hgrid : ∀ r ∈ rows, r.cell.isSome) :
    isLinkedCp (fetchBaseAnchors rows) = true ↔ ∃ r ∈ rows, r.tag = "LinkedCheckpoint" := by
  unfold isLinkedCp fetchBaseAnchors
  rw [List.any_map, List.any_eq_true]
  simp only [mem_anchorSql hgrid, Function.comp_apply, beq_iff_eq]
  rfl

/-- Rows in chain order are all in the assembler's chain. -/
theorem mem_chainOf_of_inChainOrder {rows : List CheckpointRow}
    (hgrid : ∀ r ∈ rows, r.cell.isSome) (h : InChainOrder rows) {r : CheckpointRow}
    (hr : r ∈ rows) : rowKey r ∈ chainOf rows := by
  have hkey : ∀ r ∈ rows, rowKey r ∈ (anchorSql rows).map rowKey := fun r hr =>
    List.mem_map_of_mem ((mem_anchorSql hgrid).mpr hr)
  -- the first row of a tag that cannot come twice is this row
  have hfirst : ∀ tag ∈ anchorTags, (tag = "Spawn" ∨ tag = "Goal") → r.tag = tag →
      ∃ r', (taggedRows rows tag).head? = some r' ∧ rowKey r' = rowKey r := by
    intro tag ht hend htag
    obtain ⟨r', hr'⟩ : ∃ r', (taggedRows rows tag).head? = some r' := by
      rw [← Option.isSome_iff_exists, List.isSome_head?, taggedRows_ne_nil ht]
      exact ⟨r, hr, htag⟩
    have hmem := (mem_taggedRows ht).mp (List.mem_of_mem_head? hr')
    have hsame : (rowKey r').1 = tag ∧ (rowKey r).1 = tag := ⟨hmem.2, htag⟩
    refine ⟨r', hr', ?_⟩
    rcases follows_or_eq h.ordered (hkey r' hmem.1) (hkey r hr) with heq | hf | hf
    · exact heq
    · rcases hend with rfl | rfl
      · exact absurd hsame.2 hf.2.1
      · exact absurd hsame.1 hf.1
    · rcases hend with rfl | rfl
      · exact absurd hsame.1 hf.2.1
      · exact absurd hsame.2 hf.1
  rw [mem_chainOf]
  have hcases := h.tags r hr
  simp only [anchorTags, List.mem_cons, List.not_mem_nil, or_false] at hcases
  rcases hcases with htag | htag | htag | htag
  · exact Or.inl (hfirst "Spawn" (by decide) (Or.inl rfl) htag)
  · -- no linked checkpoint has the number of a plain one
    have hnone : (fillCps (taggedRows rows "LinkedCheckpoint") Dict.empty).get? r.waypointOrder =
        none := by
      by_contra hne
      obtain ⟨a, ha⟩ := Option.ne_none_iff_exists'.mp hne
      obtain ⟨r', hr', htag', horder⟩ := (get?_taggedCps rows (by decide)).mp ⟨a, ha⟩
      exact (h.linked ⟨r', hr', htag'⟩).noPlainCps r hr htag
    obtain ⟨a, ha⟩ := (get?_taggedCps rows (by decide)).mpr ⟨r, hr, htag, rfl⟩
    refine Or.inr (Or.inl ⟨r.waypointOrder, a, ?_, ?_⟩)
    · rw [get?_cpsSource, detectedOf, foldl_add_anchorQuery]
      dsimp only
      rw [hnone, Option.none_or, ha]
    · rw [key_of_taggedCps (by decide) ha, rowKey, htag]
  · obtain ⟨a, ha⟩ := (get?_taggedCps rows (by decide)).mpr ⟨r, hr, htag, rfl⟩
    refine Or.inr (Or.inl ⟨r.waypointOrder, a, ?_, ?_⟩)
    · rw [get?_cpsSource, detectedOf, foldl_add_anchorQuery]
      dsimp only
      rw [ha, Option.some_or]
    · rw [key_of_taggedCps (by decide) ha, rowKey, htag]
  · exact Or.inr (Or.inr (hfirst "Goal" (by decide) (Or.inr rfl) htag))

/-- The generator walks the assembler's chain, with the same verdict on the map. -/
def SameAnchorChain (rows : List CheckpointRow) : Prop :=
  isLinkedCp (fetchBaseAnchors rows) = (detectAndOrderAnchors (anchorQuery rows)).1 ∧
    (fetchBaseAnchors rows).map Anchor.key =
      (detectAndOrderAnchors (anchorQuery rows)).2.map Anchor.key

/-- The two readers agree on a map exactly when its rows are in chain order. -/
theorem sameAnchorChain_iff (rows : List CheckpointRow) (hgrid : ∀ r ∈ rows, r.cell.isSome) :
    SameAnchorChain rows ↔ InChainOrder rows := by
  have hlinked : isLinkedCp (fetchBaseAnchors rows) = (detectAndOrderAnchors (anchorQuery rows)).1 ↔
      ((∃ r ∈ rows, r.tag = "LinkedCheckpoint") ↔ LinkedRows rows) := by
    rw [Bool.eq_iff_iff, isLinkedCp_iff hgrid, linked_iff]
  unfold SameAnchorChain
  rw [hlinked, fetchBaseAnchors_keys]
  constructor
  · intro ⟨hverdict, hkeys⟩
    have hkeys' : (anchorSql rows).map rowKey = chainOf rows := hkeys
    refine ⟨?_, hkeys' ▸ chainOf_pairwise rows, hverdict.mp⟩
    intro r hr
    have hmem : rowKey r ∈ chainOf rows :=
      hkeys' ▸ List.mem_map_of_mem ((mem_anchorSql hgrid).mpr hr)
    obtain ⟨r', -, hkey, ht⟩ := row_of_mem_chainOf hmem
    have htag : r'.tag = r.tag := congrArg Prod.fst hkey
    rwa [htag] at ht
  · intro h
    refine ⟨⟨h.linked, LinkedRows.linkedCps⟩, ?_⟩
    refine h.ordered.eq_of_mem_iff (chainOf_pairwise rows) fun k => ?_
    constructor
    · intro hk
      obtain ⟨r, hr, rfl⟩ := List.mem_map.mp hk
      exact mem_chainOf_of_inChainOrder hgrid h ((mem_anchorSql hgrid).mp hr)
    · intro hk
      obtain ⟨r, hr, rfl, -⟩ := row_of_mem_chainOf hk
      exact List.mem_map_of_mem ((mem_anchorSql hgrid).mpr hr)

/-- A linked map with one checkpoint as parsed: the start and the goal have order zero. -/
def parsedLinkedRows : List CheckpointRow :=
  [⟨0, 0, "Spawn", some 10, some 9, some 10⟩, ⟨1, 1, "LinkedCheckpoint", some 14, some 9, some 10⟩,
    ⟨2, 0, "Goal", some 18, some 9, some 10⟩]

theorem sameAnchorChain_parsedLinked :
    (∀ r ∈ parsedLinkedRows, r.cell.isSome) ∧
      (SameAnchorChain parsedLinkedRows ↔ InChainOrder parsedLinkedRows) :=
  have hgrid : ∀ r ∈ parsedLinkedRows, r.cell.isSome := by decide
  ⟨hgrid, sameAnchorChain_iff parsedLinkedRows hgrid⟩

/-- The generator drives from the start to the goal and only then to the checkpoint. -/
theorem parsedLinked_not_same :
    (fetchBaseAnchors parsedLinkedRows).map Anchor.key =
        [("Spawn", 0), ("Goal", 0), ("LinkedCheckpoint", 1)] ∧
      (detectAndOrderAnchors (anchorQuery parsedLinkedRows)).2.map Anchor.key =
        [("Spawn", 0), ("LinkedCheckpoint", 1), ("Goal", 0)] ∧
      ¬ SameAnchorChain parsedLinkedRows := by
  have hai : (fetchBaseAnchors parsedLinkedRows).map Anchor.key =
      [("Spawn", 0), ("Goal", 0), ("LinkedCheckpoint", 1)] := by decide
  have hasm : (detectAndOrderAnchors (anchorQuery parsedLinkedRows)).2.map Anchor.key =
      [("Spawn", 0), ("LinkedCheckpoint", 1), ("Goal", 0)] := by decide
  refine ⟨hai, hasm, fun h => ?_⟩
  have heq := h.2
  rw [hai, hasm] at heq
  revert heq
  decide

end TraxMania.Generation.Ai
