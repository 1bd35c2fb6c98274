import TraxMania.Lib.Extreme
import TraxMania.Lib.Segment
import Mathlib.Algebra.Order.Ring.Rat
import Mathlib.Data.List.Chain

/-
  `route/projection.py`, `project_points`: samples onto the nearest point of a centerline, with the
  arc length there and the offset from it. Numbers are exact.
-/

namespace TraxMania.Centerlines

open Lib.Extreme Lib.Segment

/-! ## Positions -/

/-- A row of an `(M, 3)` array. -/
@[ext]
structure Vec where
  x : ℚ
  y : ℚ
  z : ℚ
deriving DecidableEq

namespace Vec

instance : Add Vec := ⟨fun a b => ⟨a.x + b.x, a.y + b.y, a.z + b.z⟩⟩

instance : Sub Vec := ⟨fun a b => ⟨a.x - b.x, a.y - b.y, a.z - b.z⟩⟩

/-- `t * v`. -/
def scale (t : ℚ) (v : Vec) : Vec := ⟨t * v.x, t * v.y, t * v.z⟩

/-- `einsum("ij,ij->i", …)` of one row. -/
def dot (a b : Vec) : ℚ := a.x * b.x + a.y * b.y + a.z * b.z

theorem dot_self_nonneg (v : Vec) : 0 ≤ v.dot v :=
  add_nonneg (add_nonneg (mul_self_nonneg v.x) (mul_self_nonneg v.y)) (mul_self_nonneg v.z)

/-- A segment of no length has no direction. -/
theorem dot_eq_zero_of_dot_self {v : Vec} (h : v.dot v = 0) (w : Vec) : w.dot v = 0 := by
  have hx := mul_self_nonneg v.x
  have hy := mul_self_nonneg v.y
  have hz := mul_self_nonneg v.z
  unfold dot at h ⊢
  have hvx : v.x = 0 := mul_self_eq_zero.mp (by linarith)
  have hvy : v.y = 0 := mul_self_eq_zero.mp (by linarith)
  have hvz : v.z = 0 := mul_self_eq_zero.mp (by linarith)
  rw [hvx, hvy, hvz]
  ring

end Vec

/-! ## Centerlines -/

structure CenterlinePoint where
  s : ℚ
  pos : Vec
deriving DecidableEq

/-- `Centerline`: what its constructor accepts. -/
structure Centerline where
  points : List CenterlinePoint
  two_le : 2 ≤ points.length
  nondecreasing : points.IsChain fun p q => p.s ≤ q.s

/-- `starts` and `ends`, row by row, with the arc lengths of both. -/
def segmentsOf (points : List CenterlinePoint) : List (CenterlinePoint × CenterlinePoint) :=
  points.zip points.tail

/-- The point of a segment at the parameter `t`. -/
def pointAt (seg : CenterlinePoint × CenterlinePoint) (t : ℚ) : Vec :=
  seg.1.pos + Vec.scale t (seg.2.pos - seg.1.pos)

/-! ## Projection -/

/-- `t_clipped`. -/
def tClipped (q : Vec) (seg : CenterlinePoint × CenterlinePoint) : ℚ :=
  let segVec := seg.2.pos - seg.1.pos
  let segLenSq := segVec.dot segVec
  -- Guard against zero-length segments.
  let segLenSqSafe := if segLenSq = 0 then 1 else segLenSq
  let diff := q - seg.1.pos
  clip (diff.dot segVec / segLenSqSafe)

/-- `foot`. -/
def foot (q : Vec) (seg : CenterlinePoint × CenterlinePoint) : Vec := pointAt seg (tClipped q seg)

/-- The squared distance of two positions. -/
def distSq (q p : Vec) : ℚ :=
  let delta := q - p
  delta.dot delta

/-- One row of `ProjectedSamples`. -/
structure ProjectedSample where
  sValue : ℚ
  offset : Vec
  segmentIndex : Nat
deriving DecidableEq

/-- The row of one query. -/
def projectPoint (segments : List (CenterlinePoint × CenterlinePoint)) (q : Vec) :
    Option ProjectedSample := do
  let best ← argmin (segments.map fun seg => distSq q (foot q seg))
  let seg ← segments[best]?
  return ⟨seg.1.s + tClipped q seg * (seg.2.s - seg.1.s), q - foot q seg, best⟩

/-- `project_points(points, centerline)`. Without a segment, numpy raises a `ValueError`. -/
def projectPoints (queries : List Vec) (points : List CenterlinePoint) :
    Option (List ProjectedSample) :=
  if segmentsOf points = [] then none else queries.mapM (projectPoint (segmentsOf points))

/-! ## The foot is the nearest point of its segment -/

theorem distSq_pointAt (q : Vec) (seg : CenterlinePoint × CenterlinePoint) (t : ℚ) :
    distSq q (pointAt seg t) =
      (q - seg.1.pos).dot (q - seg.1.pos) -
        2 * (q - seg.1.pos).dot (seg.2.pos - seg.1.pos) * t +
          (seg.2.pos - seg.1.pos).dot (seg.2.pos - seg.1.pos) * t ^ 2 := by
  show (q.x - (seg.1.pos.x + t * (seg.2.pos.x - seg.1.pos.x))) *
        (q.x - (seg.1.pos.x + t * (seg.2.pos.x - seg.1.pos.x))) +
      (q.y - (seg.1.pos.y + t * (seg.2.pos.y - seg.1.pos.y))) *
        (q.y - (seg.1.pos.y + t * (seg.2.pos.y - seg.1.pos.y))) +
      (q.z - (seg.1.pos.z + t * (seg.2.pos.z - seg.1.pos.z))) *
        (q.z - (seg.1.pos.z + t * (seg.2.pos.z - seg.1.pos.z))) =
    ((q.x - seg.1.pos.x) * (q.x - seg.1.pos.x) + (q.y - seg.1.pos.y) * (q.y - seg.1.pos.y) +
        (q.z - seg.1.pos.z) * (q.z - seg.1.pos.z)) -
      2 * ((q.x - seg.1.pos.x) * (seg.2.pos.x - seg.1.pos.x) +
        (q.y - seg.1.pos.y) * (seg.2.pos.y - seg.1.pos.y) +
        (q.z - seg.1.pos.z) * (seg.2.pos.z - seg.1.pos.z)) * t +
      ((seg.2.pos.x - seg.1.pos.x) * (seg.2.pos.x - seg.1.pos.x) +
        (seg.2.pos.y - seg.1.pos.y) * (seg.2.pos.y - seg.1.pos.y) +
        (seg.2.pos.z - seg.1.pos.z) * (seg.2.pos.z - seg.1.pos.z)) * t ^ 2
  ring

theorem distSq_foot_le (q : Vec) (seg : CenterlinePoint × CenterlinePoint) {t : ℚ} (h0 : 0 ≤ t)
    (h1 : t ≤ 1) : distSq q (foot q seg) ≤ distSq q (pointAt seg t) := by
  unfold foot
  rw [distSq_pointAt, distSq_pointAt]
  exact nearest_le (Vec.dot_self_nonneg _) (fun h => Vec.dot_eq_zero_of_dot_self h _) h0 h1

/-! ## The nearest point of the polyline -/

/-- The row of a query is its projection onto the polyline. -/
structure IsProjection (points : List CenterlinePoint) (q : Vec) (r : ProjectedSample) : Prop where
  /-- The foot is a point of the segment, and the arc length is interpolated there. -/
  at_foot : ∃ seg t, (segmentsOf points)[r.segmentIndex]? = some seg ∧ 0 ≤ t ∧ t ≤ 1 ∧
    r.offset = q - pointAt seg t ∧ r.sValue = seg.1.s + t * (seg.2.s - seg.1.s)
  /-- No point of any segment is nearer, -/
  least : ∀ seg ∈ segmentsOf points, ∀ t, 0 ≤ t → t ≤ 1 →
    r.offset.dot r.offset ≤ distSq q (pointAt seg t)
  /-- and every point of an earlier segment is farther. -/
  first : ∀ j, j < r.segmentIndex → ∀ seg, (segmentsOf points)[j]? = some seg →
    ∀ t, 0 ≤ t → t ≤ 1 → r.offset.dot r.offset < distSq q (pointAt seg t)

theorem exists_projectPoint {points : List CenterlinePoint} (hne : segmentsOf points ≠ [])
    (q : Vec) : ∃ r, projectPoint (segmentsOf points) q = some r ∧ IsProjection points q r := by
  obtain ⟨best, d, hbest, hleast⟩ :=
    firstLeast_argmin ((segmentsOf points).map fun seg => distSq q (foot q seg)) (by simpa)
  have hat := hleast.at_index
  rw [List.getElem?_map, Option.map_eq_some_iff] at hat
  obtain ⟨seg, hseg, rfl⟩ := hat
  refine ⟨⟨seg.1.s + tClipped q seg * (seg.2.s - seg.1.s), q - foot q seg, best⟩, ?_,
    ⟨?_, ?_, ?_⟩⟩
  · unfold projectPoint
    rw [hbest, Option.bind_eq_bind, Option.bind_some, hseg]
    rfl
  · exact ⟨seg, tClipped q seg, hseg, clip_nonneg _, clip_le_one _, rfl, rfl⟩
  · intro seg' hseg' t h0 h1
    exact le_trans (hleast.least _ (List.mem_map_of_mem hseg')) (distSq_foot_le q seg' h0 h1)
  · intro j hj seg' hseg' t h0 h1
    have hat : ((segmentsOf points).map fun seg => distSq q (foot q seg))[j]? =
        some (distSq q (foot q seg')) := by
      rw [List.getElem?_map, hseg', Option.map_some]
    exact lt_of_lt_of_le (hleast.first j hj _ hat) (distSq_foot_le q seg' h0 h1)

theorem exists_mapM {α β : Type} {f : α → Option β} {P : α → β → Prop}
    (h : ∀ a, ∃ b, f a = some b ∧ P a b) (xs : List α) :
    ∃ ys, xs.mapM f = some ys ∧ List.Forall₂ P xs ys := by
  induction xs with
  | nil => exact ⟨[], rfl, List.Forall₂.nil⟩
  | cons a xs ih =>
    obtain ⟨b, hb, hP⟩ := h a
    obtain ⟨ys, hys, hall⟩ := ih
    refine ⟨b :: ys, ?_, List.Forall₂.cons hP hall⟩
    rw [List.mapM_cons, hb, hys]
    rfl

theorem exists_of_forall₂ {α β : Type} {P : α → β → Prop} {xs : List α} {ys : List β}
    (h : List.Forall₂ P xs ys) {b : β} (hb : b ∈ ys) : ∃ a, P a b := by
  induction h with
  | nil => cases hb
  | cons hP _ ih =>
    rcases List.mem_cons.mp hb with rfl | hb
    · exact ⟨_, hP⟩
    · exact ih hb

/-! ## Arc length -/

/-- A value between two values of a range lies in the range. -/
theorem interpolated_mem {lo hi a b t : ℚ} (ha : lo ≤ a ∧ a ≤ hi) (hb : lo ≤ b ∧ b ≤ hi)
    (h0 : 0 ≤ t) (h1 : t ≤ 1) : lo ≤ a + t * (b - a) ∧ a + t * (b - a) ≤ hi := by
  have hlow : 0 ≤ (1 - t) * (a - lo) + t * (b - lo) :=
    add_nonneg (mul_nonneg (by linarith) (by linarith)) (mul_nonneg h0 (by linarith))
  have hhigh : 0 ≤ (1 - t) * (hi - a) + t * (hi - b) :=
    add_nonneg (mul_nonneg (by linarith) (by linarith)) (mul_nonneg h0 (by linarith))
  constructor
  · linarith
  · linarith

/-- On a centerline every arc length lies between the first and the last. -/
theorem arcLength_mem {points : List CenterlinePoint}
    (hchain : points.IsChain fun p q => p.s ≤ q.s) {first last p : CenterlinePoint}
    (hfirst : first ∈ points.head?) (hlast : last ∈ points.getLast?) (hp : p ∈ points) :
    first.s ≤ p.s ∧ p.s ≤ last.s := by
  have hs : (points.map CenterlinePoint.s).Pairwise (· ≤ ·) := by
    rw [← List.isChain_iff_pairwise]
    exact (List.isChain_map CenterlinePoint.s).mpr hchain
  rw [List.pairwise_map] at hs
  constructor
  · cases points with
    | nil => cases hp
    | cons a points =>
      obtain rfl : a = first := Option.some.inj hfirst
      rcases List.mem_cons.mp hp with rfl | hp
      · exact le_refl _
      · exact (List.pairwise_cons.mp hs).1 p hp
  · obtain ⟨before, rfl⟩ := List.getLast?_eq_some_iff.mp hlast
    rcases List.mem_append.mp hp with hp | hp
    · exact (List.pairwise_append.mp hs).2.2 p hp last List.mem_cons_self
    · rw [List.mem_singleton.mp hp]

/-! ## Every sample is projected to its nearest point -/

theorem segmentsOf_ne_nil {points : List CenterlinePoint} (h : 2 ≤ points.length) :
    segmentsOf points ≠ [] := by
  intro hnil
  have hlength := congrArg List.length hnil
  rw [segmentsOf, List.length_zip, List.length_tail, List.length_nil] at hlength
  omega

theorem exists_projectPoints (queries : List Vec) {points : List CenterlinePoint}
    (h : 2 ≤ points.length) :
    ∃ rows, projectPoints queries points = some rows ∧
      List.Forall₂ (IsProjection points) queries rows := by
  have hne := segmentsOf_ne_nil h
  obtain ⟨rows, hrows, hall⟩ := exists_mapM (exists_projectPoint hne) queries
  refine ⟨rows, ?_, hall⟩
  unfold projectPoints
  rw [if_neg hne, hrows]

/-- The arc length of a projection lies between the ends of its segment. -/
theorem IsProjection.sValue_mem {points : List CenterlinePoint} {q : Vec} {r : ProjectedSample}
    (hr : IsProjection points q r) (hchain : points.IsChain fun p q => p.s ≤ q.s)
    {first last : CenterlinePoint} (hfirst : first ∈ points.head?)
    (hlast : last ∈ points.getLast?) : first.s ≤ r.sValue ∧ r.sValue ≤ last.s := by
  obtain ⟨seg, t, hseg, h0, h1, -, hs⟩ := hr.at_foot
  have hmem : seg ∈ points.zip points.tail := List.mem_of_getElem? hseg
  obtain ⟨ha, hb⟩ := List.of_mem_zip (a := seg.1) (b := seg.2) hmem
  rw [hs]
  exact interpolated_mem (arcLength_mem hchain hfirst hlast ha)
    (arcLength_mem hchain hfirst hlast (List.mem_of_mem_tail hb)) h0 h1

/-- Every query gets its projection onto the polyline, and where the arc lengths do not decrease,
    one between the first and the last of them. -/
theorem projects_to_nearest (queries : List Vec) (points : List CenterlinePoint)
    (h : 2 ≤ points.length) :
    ∃ rows, projectPoints queries points = some rows ∧
      List.Forall₂ (IsProjection points) queries rows ∧
      (points.IsChain (fun p q => p.s ≤ q.s) →
        ∀ r ∈ rows, ∀ first ∈ points.head?, ∀ last ∈ points.getLast?,
          first.s ≤ r.sValue ∧ r.sValue ≤ last.s) := by
  obtain ⟨rows, hrows, hall⟩ := exists_projectPoints queries h
  refine ⟨rows, hrows, hall, fun hchain r hr first hfirst last hlast => ?_⟩
  obtain ⟨q, hq⟩ := exists_of_forall₂ hall hr
  exact hq.sValue_mem hchain hfirst hlast

/-- A corner with a point that is repeated. -/
def cornerLine : List CenterlinePoint :=
  [⟨0, ⟨0, 0, 0⟩⟩, ⟨10, ⟨10, 0, 0⟩⟩, ⟨10, ⟨10, 0, 0⟩⟩, ⟨20, ⟨10, 0, 10⟩⟩]

/-- A sample beside the first leg, and one beyond the corner. -/
theorem corner_projected :
    ∃ rows, projectPoints [⟨3, 4, 0⟩, ⟨12, 0, -1⟩] cornerLine = some rows ∧
      List.Forall₂ (IsProjection cornerLine) [⟨3, 4, 0⟩, ⟨12, 0, -1⟩] rows ∧
      (cornerLine.IsChain (fun p q => p.s ≤ q.s) →
        ∀ r ∈ rows, ∀ first ∈ cornerLine.head?, ∀ last ∈ cornerLine.getLast?,
          first.s ≤ r.sValue ∧ r.sValue ≤ last.s) :=
  projects_to_nearest _ cornerLine (by decide)

example : projectPoints [⟨3, 4, 0⟩, ⟨12, 0, -1⟩] cornerLine =
    some [⟨3, ⟨0, 4, 0⟩, 0⟩, ⟨10, ⟨2, 0, -1⟩, 0⟩] := by decide +kernel

end TraxMania.Centerlines
