import TraxMania.Grid.Cell
import TraxMania.Lib.Dict
import TraxMania.Lib.SortBy
import Mathlib.Data.String.Basic

/-
  The waypoints of a map as the route assembler sees them: the rows of `_ANCHOR_QUERY`, the anchor
  chain `_detect_and_order_anchors` makes of them, and the corridors it looks up between
  consecutive anchors.
-/

namespace TraxMania.Generation

open TraxMania.Grid Lib Lib.SortBy

/-- A `map_checkpoints` row. -/
structure CheckpointRow where
  waypointIndex : Int
  waypointOrder : Int
  tag : String
  x : Option Int
  y : Option Int
  z : Option Int

/-- `cell`, when all three coordinates are there. -/
def CheckpointRow.cell (r : CheckpointRow) : Option Cell :=
  match r.x, r.y, r.z with
  | some x, some y, some z => some ⟨x, y, z⟩
  | _, _, _ => none

/-- The tags `_ANCHOR_QUERY` selects. -/
def anchorTags : List String := ["Spawn", "Checkpoint", "LinkedCheckpoint", "Goal"]

/-- `CASE tag …` of the `ORDER BY`. -/
def tagRank (tag : String) : Nat :=
  if tag = "Spawn" then 0
  else if tag = "Goal" then 2
  else 1

def queryKey (r : CheckpointRow) : Nat ×ₗ Int := toLex (tagRank r.tag, r.waypointOrder)

/-- `_ANCHOR_QUERY` on the rows of one map, in the order in which the table gives them. -/
def anchorQuery (rows : List CheckpointRow) : List CheckpointRow :=
  sortBy queryKey (rows.filter fun r => decide (r.tag ∈ anchorTags))

/-- One endpoint of the chain. -/
structure Anchor where
  tag : String
  order : Int
  cell : Option Cell

def CheckpointRow.anchor (r : CheckpointRow) : Anchor := ⟨r.tag, r.waypointOrder, r.cell⟩

/-- The variables of the loop of `_detect_and_order_anchors`. -/
structure Detected where
  spawn : Option Anchor
  goal : Option Anchor
  plainCps : Dict Int Anchor
  linkedCps : Dict Int Anchor

namespace Detected

def none : Detected := ⟨.none, .none, Dict.empty, Dict.empty⟩

/-- The body of `for r in rows`. -/
def add (d : Detected) (r : CheckpointRow) : Detected :=
  if r.tag = "Spawn" then { d with spawn := d.spawn.or (some r.anchor) }
  else if r.tag = "Goal" then { d with goal := d.goal.or (some r.anchor) }
  else if r.tag = "Checkpoint" then
    { d with plainCps := d.plainCps.setdefault r.waypointOrder r.anchor }
  else if r.tag = "LinkedCheckpoint" then
    { d with linkedCps := d.linkedCps.setdefault r.waypointOrder r.anchor }
  else d

/-- `linked`. -/
def linked (d : Detected) : Bool :=
  d.linkedCps.items ≠ [] && d.plainCps.items = [] && d.goal.isSome

/-- `cps_source`. -/
def cpsSource (d : Detected) : Dict Int Anchor :=
  if d.linked then d.linkedCps else d.plainCps.merge d.linkedCps

/-- `cps_source[k] for k in sorted(cps_source)`. -/
def orderedCps (cps : Dict Int Anchor) : List Anchor := (sortBy id cps.keys).filterMap cps.get?

def ordered (d : Detected) : List Anchor :=
  d.spawn.toList ++ orderedCps d.cpsSource ++ d.goal.toList

end Detected

/-- `_detect_and_order_anchors(rows)`. -/
def detectAndOrderAnchors (rows : List CheckpointRow) : Bool × List Anchor :=
  let d := rows.foldl Detected.add Detected.none
  (d.linked, d.ordered)

/-! ## Looking corridors up -/

/-- `(src.tag, src.order, dst.tag, dst.order)`. -/
abbrev IntervalKey := (String × Int) × String × Int

def Anchor.key (a : Anchor) : String × Int := (a.tag, a.order)

/-- The keys of consecutive anchors, as the interval loop looks them up. -/
def lookupKeys (anchors : List Anchor) : List IntervalKey :=
  (anchors.zip anchors.tail).map fun (src, dst) => (src.key, dst.key)

/-- A candidate corridor: its interval and its score, when it has one. -/
structure CandidateCorridor (σ : Type*) where
  src : Anchor
  dst : Anchor
  learnedCorridorScore : Option σ

/-- The interval at which assembly stops with `missing_corridor_in_interval`. -/
def missingCorridorInInterval {σ : Type*} (anchors : List Anchor)
    (candidates : List (CandidateCorridor σ)) : Option Nat :=
  (lookupKeys anchors).findIdx? fun key =>
    candidates.all fun c => c.learnedCorridorScore.isNone || (c.src.key, c.dst.key) ≠ key

/-! ## What detection keeps of the rows -/

def withTag (tag : String) (rows : List CheckpointRow) : List CheckpointRow :=
  rows.filter fun r => decide (r.tag = tag)

theorem withTag_cons_self {r : CheckpointRow} {tag : String} (h : r.tag = tag)
    (rows : List CheckpointRow) : withTag tag (r :: rows) = r :: withTag tag rows := by
  simp [withTag, h]

theorem withTag_cons_ne {r : CheckpointRow} {tag : String} (h : r.tag ≠ tag)
    (rows : List CheckpointRow) : withTag tag (r :: rows) = withTag tag rows := by
  simp [withTag, h]

/-- The loop over the rows of one tag that fills a dictionary. -/
def fillCps (rows : List CheckpointRow) (cps : Dict Int Anchor) : Dict Int Anchor :=
  rows.foldl (fun acc r => acc.setdefault r.waypointOrder r.anchor) cps

namespace Detected

theorem foldl_add (rows : List CheckpointRow) (d : Detected) :
    rows.foldl add d =
      ⟨d.spawn.or ((withTag "Spawn" rows).head?.map CheckpointRow.anchor),
        d.goal.or ((withTag "Goal" rows).head?.map CheckpointRow.anchor),
        fillCps (withTag "Checkpoint" rows) d.plainCps,
        fillCps (withTag "LinkedCheckpoint" rows) d.linkedCps⟩ := by
  induction rows generalizing d with
  | nil => simp [withTag, fillCps]
  | cons r rows ih =>
    rw [List.foldl_cons, ih]
    by_cases hs : r.tag = "Spawn"
    · rw [withTag_cons_self hs, withTag_cons_ne (by rw [hs]; decide),
        withTag_cons_ne (by rw [hs]; decide), withTag_cons_ne (by rw [hs]; decide), add, if_pos hs]
      cases d.spawn <;> rfl
    · rw [withTag_cons_ne hs]
      by_cases hg : r.tag = "Goal"
      · rw [withTag_cons_self hg, withTag_cons_ne (by rw [hg]; decide),
          withTag_cons_ne (by rw [hg]; decide), add, if_neg hs, if_pos hg]
        cases d.goal <;> rfl
      · rw [withTag_cons_ne hg]
        by_cases hc : r.tag = "Checkpoint"
        · rw [withTag_cons_self hc, withTag_cons_ne (by rw [hc]; decide), add, if_neg hs,
            if_neg hg, if_pos hc]
          rfl
        · rw [withTag_cons_ne hc]
          by_cases hl : r.tag = "LinkedCheckpoint"
          · rw [withTag_cons_self hl, add, if_neg hs, if_neg hg, if_neg hc, if_pos hl]
            rfl
          · rw [withTag_cons_ne hl, add, if_neg hs, if_neg hg, if_neg hc, if_neg hl]

end Detected

theorem mem_keys_fillCps (rows : List CheckpointRow) (order : Int) :
    order ∈ (fillCps rows Dict.empty).keys ↔ ∃ r ∈ rows, r.waypointOrder = order := by
  unfold fillCps Dict.setdefault
  rw [Dict.mem_keys_foldl]
  simp [Dict.empty, Dict.keys]

theorem items_fillCps_eq_nil {rows : List CheckpointRow} :
    (fillCps rows Dict.empty).items = [] ↔ rows = [] := by
  constructor
  · intro h
    cases rows with
    | nil => rfl
    | cons r rows =>
      have hmem := (mem_keys_fillCps (r :: rows) r.waypointOrder).mpr ⟨r, by simp, rfl⟩
      rw [Dict.keys, h] at hmem
      simp at hmem
  · rintro rfl
    rfl

/-- What the loop over the rows of one tag leaves under an order. -/
theorem get?_fillCps {tag : String} {rows : List CheckpointRow} (h : ∀ r ∈ rows, r.tag = tag)
    {order : Int} {a : Anchor} (ha : (fillCps rows Dict.empty).get? order = some a) :
    a.key = (tag, order) := by
  have hitems : ∀ kv ∈ (fillCps rows Dict.empty).items, kv.2.key = (tag, kv.1) := by
    unfold fillCps Dict.setdefault
    refine Dict.forall_foldl (P := fun k a => Anchor.key a = (tag, k)) (by simp [Dict.empty]) ?_
    intro r hr old hold
    cases old with
    | none => exact Prod.ext (h r hr) rfl
    | some a => exact hold a rfl
  exact hitems _ (Dict.mem_items_of_get? ha)

/-- The anchors of one tag in the order of their keys. -/
theorem orderedCps_fillCps {tag : String} {rows : List CheckpointRow}
    (h : ∀ r ∈ rows, r.tag = tag) :
    (Detected.orderedCps (fillCps rows Dict.empty)).map Anchor.key =
      (sortBy id (fillCps rows Dict.empty).keys).map fun order => (tag, order) := by
  have hget : ∀ order ∈ sortBy id (fillCps rows Dict.empty).keys,
      ((fillCps rows Dict.empty).get? order).map Anchor.key = some (tag, order) := by
    intro order horder
    obtain ⟨a, ha⟩ := Dict.mem_keys.mp ((mem_sortBy id _ _).mp horder)
    rw [Dict.get?_eq_some ha, Option.map_some, get?_fillCps h (Dict.get?_eq_some ha)]
  unfold Detected.orderedCps
  generalize sortBy id (fillCps rows Dict.empty).keys = orders at hget
  induction orders with
  | nil => rfl
  | cons order orders ih =>
    obtain ⟨a, ha, hkey⟩ := Option.map_eq_some_iff.mp (hget order (by simp))
    rw [List.filterMap_cons_some ha, List.map_cons, List.map_cons, hkey,
      ih fun o ho => hget o (by simp [ho])]

end TraxMania.Generation
