import TraxMania.Grid.Cell
import TraxMania.Lib.Dict
import TraxMania.Lib.SortBy
import Mathlib.Data.String.Basic
import Mathlib.Data.Finset.Lattice.Basic

/-
  The waypoints of a map as the corridor enumerator sees them: `map_checkpoints` rows grouped into
  anchor sets (`_build_anchor_sets`), and the intervals it plans to enumerate between them
  (`_plan_intervals`).
-/

namespace TraxMania.Corridor

open TraxMania.Grid Lib Lib.SortBy

/-- A row `(tag, waypoint_order, x, y, z)`. -/
structure WaypointRow where
  tag : Option String
  waypointOrder : Int
  x : Option Int
  y : Option Int
  z : Option Int

/-- A logical waypoint and the cells it spans. -/
structure AnchorSet where
  tag : String
  waypointOrder : Int
  cells : Finset Cell

/-- `groups[(tag, int(wp_order))].add((x, y, z))`; rows with a missing field are skipped. -/
def addRow (groups : Dict (String × Int) (Finset Cell)) (r : WaypointRow) :
    Dict (String × Int) (Finset Cell) :=
  match r.tag, r.x, r.y, r.z with
  | some tag, some x, some y, some z =>
    groups.upsert (tag, r.waypointOrder) fun cells => insert ⟨x, y, z⟩ (cells.getD ∅)
  | _, _, _, _ => groups

/-- The order of `sorted(groups.items())`; no two items have the same key. -/
def groupKey (kv : (String × Int) × Finset Cell) : String ×ₗ Int := toLex kv.1

/-- `_build_anchor_sets(rows)`. -/
def buildAnchorSets (rows : List WaypointRow) : List AnchorSet :=
  (sortBy groupKey (rows.foldl addRow Dict.empty).items).map fun kv => ⟨kv.1.1, kv.1.2, kv.2⟩

/-! ## The intervals -/

/-- `_IntervalPlan`. -/
structure IntervalPlan where
  srcTag : String
  srcOrder : Int
  dstTag : String
  dstOrder : Int
  sources : Finset Cell
  targets : Finset Cell

/-- `_SPAWN_TAGS`. -/
def spawnTags : List String := ["Spawn", "StartFinish"]

/-- The variables of the first loop of `_plan_intervals`. -/
structure Anchors where
  spawnCells : Finset Cell
  plainCps : List AnchorSet
  linkedCps : List AnchorSet
  goal : Option AnchorSet
  others : List AnchorSet

namespace Anchors

def none : Anchors := ⟨∅, [], [], .none, []⟩

/-- The body of `for aset in anchor_sets`. -/
def add (a : Anchors) (aset : AnchorSet) : Anchors :=
  if aset.tag ∈ spawnTags then { a with spawnCells := a.spawnCells ∪ aset.cells }
  else if aset.tag = "Checkpoint" then { a with plainCps := a.plainCps ++ [aset] }
  else if aset.tag = "LinkedCheckpoint" then { a with linkedCps := a.linkedCps ++ [aset] }
  else if aset.tag = "Goal" then { a with goal := a.goal.or (some aset) }
  else { a with others := a.others ++ [aset] }

def ofSets (anchorSets : List AnchorSet) : Anchors := anchorSets.foldl add none

/-- `linked`. -/
def linked (a : Anchors) : Prop := a.linkedCps ≠ [] ∧ a.plainCps = [] ∧ a.goal.isSome

instance : DecidablePred linked := fun a => by unfold linked; infer_instance

/-- The interval from one anchor set to another. -/
def interval (src dst : AnchorSet) : IntervalPlan :=
  ⟨src.tag, src.waypointOrder, dst.tag, dst.waypointOrder, src.cells, dst.cells⟩

/-- The interval from the spawn cells; its key is always `("Spawn", 0)`. -/
def fromSpawn (a : Anchors) (dst : AnchorSet) : IntervalPlan :=
  ⟨"Spawn", 0, dst.tag, dst.waypointOrder, a.spawnCells, dst.cells⟩

/-- The plans of the Linked-CP branch. -/
def chainPlans (a : Anchors) : List IntervalPlan :=
  let chain := sortBy (·.waypointOrder) a.linkedCps
  match chain.head?, chain.getLast?, a.goal with
  | some first, some last, some goal =>
    a.fromSpawn first :: (List.zipWith interval chain chain.tail ++ [interval last goal])
  | _, _, _ => []

/-- The plans of the plain branch. -/
def plainPlans (a : Anchors) : List IntervalPlan :=
  (a.plainCps ++ a.linkedCps ++ a.goal.toList ++ a.others).map a.fromSpawn

/-- `_plan_intervals` takes its Linked-CP branch. -/
def takesLinkedBranch (a : Anchors) : Prop := a.spawnCells ≠ ∅ ∧ a.linked

end Anchors

/-- `_plan_intervals(anchor_sets)`. -/
def planIntervals (anchorSets : List AnchorSet) : List IntervalPlan :=
  let a := Anchors.ofSets anchorSets
  if a.spawnCells = ∅ then []
  else if a.linked then a.chainPlans
  else a.plainPlans

/-! ## What the grouping keeps -/

/-- A row of a grid-placed waypoint block: all fields are there. -/
structure GridRow where
  waypointIndex : Int
  tag : String
  waypointOrder : Int
  cell : Cell
deriving DecidableEq

/-- What `_fetch_map_waypoints` selects of it. -/
def GridRow.waypoint (r : GridRow) : WaypointRow :=
  ⟨some r.tag, r.waypointOrder, some r.cell.x, some r.cell.y, some r.cell.z⟩

/-- Some row has the tag and the order. -/
def HasAnchor (rows : List GridRow) (tag : String) (order : Int) : Prop :=
  ∃ r ∈ rows, r.tag = tag ∧ r.waypointOrder = order

theorem foldl_addRow (rows : List GridRow) (d : Dict (String × Int) (Finset Cell)) :
    (rows.map GridRow.waypoint).foldl addRow d =
      rows.foldl (fun acc r => acc.upsert (r.tag, r.waypointOrder)
        fun cells => insert r.cell (cells.getD ∅)) d := by
  rw [List.foldl_map]
  rfl

theorem mem_buildAnchorSets {rows : List GridRow} {tag : String} {order : Int} :
    (∃ aset ∈ buildAnchorSets (rows.map GridRow.waypoint),
      aset.tag = tag ∧ aset.waypointOrder = order) ↔ HasAnchor rows tag order := by
  have hkeys : (tag, order) ∈ ((rows.map GridRow.waypoint).foldl addRow Dict.empty).keys ↔
      HasAnchor rows tag order := by
    rw [foldl_addRow, Dict.mem_keys_foldl]
    simp [Dict.empty, Dict.keys, HasAnchor]
  rw [← hkeys, Dict.mem_keys]
  unfold buildAnchorSets
  constructor
  · rintro ⟨aset, haset, rfl, rfl⟩
    obtain ⟨kv, hkv, rfl⟩ := List.mem_map.mp haset
    exact ⟨kv.2, (mem_sortBy _ _ _).mp hkv⟩
  · rintro ⟨cells, hcells⟩
    exact ⟨_, List.mem_map.mpr ⟨_, (mem_sortBy groupKey _ _).mpr hcells, rfl⟩, rfl, rfl⟩

/-- No anchor set is empty. -/
theorem cells_nonempty {rows : List GridRow} :
    ∀ aset ∈ buildAnchorSets (rows.map GridRow.waypoint), aset.cells ≠ ∅ := by
  intro aset haset
  obtain ⟨kv, hkv, rfl⟩ := List.mem_map.mp haset
  rw [mem_sortBy, foldl_addRow] at hkv
  refine Dict.forall_foldl (P := fun _ cells => cells ≠ ∅) (by simp [Dict.empty]) ?_ kv hkv
  intro r _ old _
  exact Finset.insert_ne_empty _ _

/-- The sets come out ordered by tag, then by waypoint order, each key once. -/
theorem buildAnchorSets_sorted (rows : List WaypointRow) :
    (buildAnchorSets rows).Pairwise fun a b =>
      (toLex (a.tag, a.waypointOrder) : String ×ₗ Int) < toLex (b.tag, b.waypointOrder) := by
  unfold buildAnchorSets
  rw [List.pairwise_map]
  have hperm := sortBy_perm groupKey (rows.foldl addRow Dict.empty).items
  have hnd : ((sortBy groupKey (rows.foldl addRow Dict.empty).items).map Prod.fst).Nodup :=
    (hperm.map Prod.fst).nodup_iff.mpr (rows.foldl addRow Dict.empty).nodup
  have hle := sortBy_pairwise groupKey (rows.foldl addRow Dict.empty).items
  refine List.Pairwise.imp₂ (fun a b hab hne => ?_) hle (List.pairwise_map.mp hnd)
  exact lt_of_le_of_ne hab fun e => hne (toLex.injective e)

/-- The sets of one tag, by their orders. -/
theorem orders_sorted (rows : List WaypointRow) (tag : String) :
    ((buildAnchorSets rows).filter fun a => decide (a.tag = tag)).Pairwise
      fun a b => a.waypointOrder < b.waypointOrder := by
  have h := (buildAnchorSets_sorted rows).filter fun a => decide (a.tag = tag)
  refine List.Pairwise.imp_of_mem (fun {a b} ha hb hab => ?_) h
  have hta : a.tag = tag := by simpa using (List.mem_filter.mp ha).2
  have htb : b.tag = tag := by simpa using (List.mem_filter.mp hb).2
  rw [Prod.Lex.toLex_lt_toLex] at hab
  rcases hab with hab | ⟨-, hab⟩
  · exact absurd (hta.trans htb.symm) (ne_of_lt hab)
  · exact hab

/-! ## What the first loop of `_plan_intervals` sorts out -/

/-- The sets with a tag. -/
def withTag (tag : String) (anchorSets : List AnchorSet) : List AnchorSet :=
  anchorSets.filter fun a => decide (a.tag = tag)

theorem withTag_cons_self {a : AnchorSet} {tag : String} (h : a.tag = tag)
    (anchorSets : List AnchorSet) :
    withTag tag (a :: anchorSets) = a :: withTag tag anchorSets := by
  simp [withTag, h]

theorem withTag_cons_ne {a : AnchorSet} {tag : String} (h : a.tag ≠ tag)
    (anchorSets : List AnchorSet) : withTag tag (a :: anchorSets) = withTag tag anchorSets := by
  simp [withTag, h]

theorem withTag_append (tag : String) (xs ys : List AnchorSet) :
    withTag tag (xs ++ ys) = withTag tag xs ++ withTag tag ys := List.filter_append _ _

namespace Anchors

/-- What the loop leaves when it starts from `a`. -/
structure LoopSpec (a : Anchors) (anchorSets : List AnchorSet) (b : Anchors) : Prop where
  spawn : ∀ c, c ∈ b.spawnCells ↔ c ∈ a.spawnCells ∨
    ∃ aset ∈ anchorSets, aset.tag ∈ spawnTags ∧ c ∈ aset.cells
  plain : b.plainCps = a.plainCps ++ withTag "Checkpoint" anchorSets
  linked : b.linkedCps = a.linkedCps ++ withTag "LinkedCheckpoint" anchorSets
  goal : b.goal = a.goal.or (withTag "Goal" anchorSets).head?

theorem LoopSpec.append {a b c : Anchors} {xs ys : List AnchorSet} (hb : LoopSpec a xs b)
    (hc : LoopSpec b ys c) : LoopSpec a (xs ++ ys) c where
  spawn cell := by
    rw [hc.spawn, hb.spawn, or_assoc]
    simp only [List.mem_append, or_and_right, exists_or]
  plain := by
    rw [hc.plain, hb.plain, List.append_assoc, withTag_append]
  linked := by
    rw [hc.linked, hb.linked, List.append_assoc, withTag_append]
  goal := by
    rw [hc.goal, hb.goal, Option.or_assoc, withTag_append, List.head?_append]

/-- A set of spawn cells goes to the spawn cells, and to nothing else. -/
theorem add_spawn {aset : AnchorSet} (hs : aset.tag ∈ spawnTags) (a : Anchors) :
    LoopSpec a [aset] (a.add aset) := by
  have hskip : ∀ tag ∉ spawnTags, withTag tag [aset] = [] := by
    intro tag ht
    have hne : aset.tag ≠ tag := fun e => ht (e ▸ hs)
    exact withTag_cons_ne hne []
  rw [add, if_pos hs]
  refine ⟨fun c => ?_, ?_, ?_, ?_⟩
  · show c ∈ a.spawnCells ∪ aset.cells ↔ _
    simp [hs]
  · rw [hskip _ (by decide), List.append_nil]
  · rw [hskip _ (by decide), List.append_nil]
  · rw [hskip _ (by decide), List.head?_nil, Option.or_none]

theorem add_other {aset : AnchorSet} (hs : aset.tag ∉ spawnTags) (a : Anchors) :
    LoopSpec a [aset] (a.add aset) := by
  have hspawn : ∀ c, c ∈ a.spawnCells ↔ c ∈ a.spawnCells ∨
      ∃ x ∈ [aset], x.tag ∈ spawnTags ∧ c ∈ x.cells := by simp [hs]
  have hskip : ∀ tag, aset.tag ≠ tag → withTag tag [aset] = [] := fun tag h => withTag_cons_ne h []
  rw [add, if_neg hs]
  by_cases hc : aset.tag = "Checkpoint"
  · rw [if_pos hc]
    refine ⟨hspawn, ?_, ?_, ?_⟩
    · rw [withTag_cons_self hc]
      rfl
    · rw [hskip _ (by rw [hc]; decide), List.append_nil]
    · rw [hskip _ (by rw [hc]; decide), List.head?_nil, Option.or_none]
  · rw [if_neg hc]
    by_cases hl : aset.tag = "LinkedCheckpoint"
    · rw [if_pos hl]
      refine ⟨hspawn, ?_, ?_, ?_⟩
      · rw [hskip _ hc, List.append_nil]
      · rw [withTag_cons_self hl]
        rfl
      · rw [hskip _ (by rw [hl]; decide), List.head?_nil, Option.or_none]
    · rw [if_neg hl]
      by_cases hg : aset.tag = "Goal"
      · rw [if_pos hg]
        refine ⟨hspawn, ?_, ?_, ?_⟩
        · rw [hskip _ hc, List.append_nil]
        · rw [hskip _ hl, List.append_nil]
        · rw [withTag_cons_self hg]
          rfl
      · rw [if_neg hg]
        refine ⟨hspawn, ?_, ?_, ?_⟩
        · rw [hskip _ hc, List.append_nil]
        · rw [hskip _ hl, List.append_nil]
        · rw [hskip _ hg, List.head?_nil, Option.or_none]

theorem foldl_add (anchorSets : List AnchorSet) (a : Anchors) :
    LoopSpec a anchorSets (anchorSets.foldl add a) := by
  induction anchorSets generalizing a with
  | nil => exact ⟨by simp, by simp [withTag], by simp [withTag], by simp [withTag]⟩
  | cons aset rest ih =>
    have hstep : LoopSpec a [aset] (a.add aset) := by
      by_cases hs : aset.tag ∈ spawnTags
      · exact add_spawn hs a
      · exact add_other hs a
    exact hstep.append (ih (a.add aset))

theorem ofSets_spec (anchorSets : List AnchorSet) : LoopSpec none anchorSets (ofSets anchorSets) :=
  foldl_add anchorSets none

end Anchors

end TraxMania.Corridor
