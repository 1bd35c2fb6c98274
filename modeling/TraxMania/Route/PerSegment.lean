import Mathlib.Data.Rat.Floor
import TraxMania.Lib.Extreme
import TraxMania.Lib.Numpy

/-
  `route/clusterers/per_segment.py`: an inner clusterer, created anew in every window along the
  first column, with the labels of each window moved behind those of the windows before. Coordinates
  are exact, and a label is an integer: `labels_lt` says that those of a clusterer that counts its
  clusters fit wherever the number of points does.
-/

namespace TraxMania.Clusterers

open Lib.Extreme Lib.Numpy

/-- An array of the shape `(len(rows), cols)`. -/
structure Points where
  cols : ℕ
  rows : List (List ℚ)
  shape : ∀ row ∈ rows, row.length = cols

/-- `create(…).fit_predict(window_feats)` in a window: one label for each of its points. -/
abbrev InnerClusterer := ℕ → (features : List (List ℚ)) → Vector Int features.length

/-- What the constructor accepts. -/
structure PerSegmentClusterer where
  inner : InnerClusterer
  windowSize : ℚ
  windowStride : ℚ
  size_pos : 0 < windowSize
  stride_pos : 0 < windowStride

/-- `ValueError("per_segment input must have shape (M, 1+D) with D>=1, got …")`. -/
inductive ClusterError where
  | shape (rows cols : ℕ)
deriving DecidableEq

/-- `labels` and `next_label` between two windows. -/
structure Labelling where
  labels : List Int
  nextLabel : Int

/-! ## Windows -/

/-- `points[:, 0]`. -/
def Points.order (points : Points) : List ℚ := points.rows.map fun row => row.headD 0

/-- `points[:, 1:]`. -/
def Points.features (points : Points) : List (List ℚ) := points.rows.map List.tail

namespace PerSegmentClusterer

variable (c : PerSegmentClusterer)

/-- `n_windows`. -/
def nWindows (order : List ℚ) : ℕ :=
  let lo := order.tail.foldl min (order.headD 0)
  let hi := order.tail.foldl max (order.headD 0)
  (max 1 (⌈(hi - lo - c.windowSize) / c.windowStride⌉ + 1)).toNat

/-- `centers`. -/
def centers (order : List ℚ) : List ℚ :=
  let lo := order.tail.foldl min (order.headD 0)
  (List.range (c.nWindows order)).map fun k : ℕ => lo + k * c.windowStride + c.windowSize / 2

/-- `np.abs(s - centers)`. -/
def distances (order : List ℚ) (s : ℚ) : List ℚ := (c.centers order).map fun center => |s - center|

/-- `assignments`: there is a window, so `argmin` finds one. -/
def assignments (order : List ℚ) : List ℕ :=
  order.map fun s => (argmin (c.distances order s)).getD 0

/-! ## Labels -/

/-- The body of the loop over the windows. -/
def labelWindow (features : List (List ℚ)) (assignments : List ℕ) (st : Labelling) (w : ℕ) :
    Labelling :=
  let mask := positions assignments w
  if mask = [] then st
  else
    let sub := (c.inner w (takeAt features mask)).toList
    let shifted := sub.map fun label => if label < 0 then -1 else label + st.nextLabel
    let labels := scatter st.labels mask shifted
    match shifted.filter fun label => 0 ≤ label with
    | [] => ⟨labels, st.nextLabel⟩
    | first :: rest => ⟨labels, rest.foldl max first + 1⟩

/-- The windows before `k`, from an array that holds anything. -/
def labelWindows (features : List (List ℚ)) (assignments : List ℕ) (labels : List Int) (k : ℕ) :
    Labelling :=
  (List.range k).foldl (c.labelWindow features assignments) ⟨labels, 0⟩

/-- `fit_predict(points)`. -/
def fitPredict (empty : ∀ n, Vector Int n) (points : Points) : Except ClusterError (List Int) :=
  if points.cols < 2 then .error (.shape points.rows.length points.cols)
  else if points.rows.length = 0 then .ok []
  else
    let order := points.order
    .ok (c.labelWindows points.features (c.assignments order) (empty points.rows.length).toList
      (c.nWindows order)).labels

/-- The window of a point. -/
def window (points : Points) (i : ℕ) : Option ℕ := (c.assignments points.order)[i]?

/-- The label that the inner clusterer gives the point `i` of the window `w`. -/
def labelIn (features : List (List ℚ)) (assignments : List ℕ) (w i : ℕ) : Option Int :=
  let mask := positions assignments w
  (c.inner w (takeAt features mask)).toList[mask.idxOf i]?

/-- The label of a point in its window. -/
def innerLabel (points : Points) (i : ℕ) : Option Int :=
  (c.window points i).bind fun w => c.labelIn points.features (c.assignments points.order) w i

/-! ## One window -/

variable {c} {features : List (List ℚ)} {assignments : List ℕ}

/-- The inner clusterer labels every point of the window. -/
theorem exists_labelIn (hlength : features.length = assignments.length) {w i : ℕ}
    (hi : assignments[i]? = some w) : ∃ l, c.labelIn features assignments w i = some l := by
  have hmask : i ∈ positions assignments w := mem_positions.mpr hi
  have htake : (takeAt features (positions assignments w)).length =
      (positions assignments w).length := by
    apply length_takeAt
    intro p hp
    rw [hlength]
    exact (List.getElem?_eq_some_iff.mp (mem_positions.mp hp)).1
  unfold labelIn
  refine ⟨_, List.getElem?_eq_getElem ?_⟩
  rw [Vector.length_toList, htake]
  exact List.idxOf_lt_length_of_mem hmask

/-- Outside the window nothing is written. -/
theorem labelWindow_other {w i : ℕ} (hi : assignments[i]? ≠ some w) (st : Labelling) :
    (c.labelWindow features assignments st w).labels[i]? = st.labels[i]? := by
  have hmask : i ∉ positions assignments w := fun h => hi (mem_positions.mp h)
  unfold labelWindow
  dsimp only
  split
  · rfl
  · split
    · exact getElem?_scatter_of_notMem hmask _ _
    · exact getElem?_scatter_of_notMem hmask _ _

theorem length_labelWindow (st : Labelling) (w : ℕ) :
    (c.labelWindow features assignments st w).labels.length = st.labels.length := by
  unfold labelWindow
  dsimp only
  split
  · rfl
  · split
    · exact length_scatter _ _ _
    · exact length_scatter _ _ _

/-- A point of the window gets its label there, moved by the offset. -/
theorem labelWindow_own {w i : ℕ} (hi : assignments[i]? = some w) {l : Int}
    (hl : c.labelIn features assignments w i = some l) {st : Labelling}
    (hst : st.labels.length = assignments.length) :
    (c.labelWindow features assignments st w).labels[i]? =
      some (if l < 0 then -1 else l + st.nextLabel) := by
  have hmask : i ∈ positions assignments w := mem_positions.mpr hi
  have hne : positions assignments w ≠ [] := List.ne_nil_of_mem hmask
  have hnodup : (positions assignments w).Nodup := List.nodup_range.filter _
  have hlt : ∀ p ∈ positions assignments w, p < st.labels.length := by
    intro p hp
    rw [hst]
    exact (List.getElem?_eq_some_iff.mp (mem_positions.mp hp)).1
  have hat : (positions assignments w)[(positions assignments w).idxOf i]? = some i :=
    List.getElem?_idxOf hmask
  have hvalue : ((c.inner w (takeAt features (positions assignments w))).toList.map fun label =>
      if label < 0 then -1 else label + st.nextLabel)[(positions assignments w).idxOf i]? =
      some (if l < 0 then -1 else l + st.nextLabel) := by
    unfold labelIn at hl
    rw [List.getElem?_map, hl, Option.map_some]
  unfold labelWindow
  dsimp only
  rw [if_neg hne]
  split
  · exact getElem?_scatter hnodup hlt hat hvalue
  · exact getElem?_scatter hnodup hlt hat hvalue

/-- The labels of a window that are not noise, moved by the offset. -/
theorem mem_positive {sub : List Int} {next : Int} (hnext : 0 ≤ next) (p : Int) :
    p ∈ (sub.map fun label => if label < 0 then -1 else label + next).filter (fun label => 0 ≤ label) ↔
      ∃ l ∈ sub, 0 ≤ l ∧ p = l + next := by
  rw [List.mem_filter, List.mem_map, decide_eq_true_eq]
  constructor
  · intro hp
    obtain ⟨⟨l, hl, hmoved⟩, hp⟩ := hp
    by_cases hneg : l < 0
    · rw [if_pos hneg] at hmoved
      omega
    · rw [if_neg hneg] at hmoved
      exact ⟨l, hl, by omega, hmoved.symm⟩
  · intro hp
    obtain ⟨l, hl, h0, hmoved⟩ := hp
    exact ⟨⟨l, hl, by rw [if_neg (by omega), hmoved]⟩, by omega⟩

/-- The next label is past every label of the window, and past no others. -/
theorem labelWindow_next {st : Labelling} (hst : 0 ≤ st.nextLabel) (w : ℕ) :
    st.nextLabel ≤ (c.labelWindow features assignments st w).nextLabel ∧
      (∀ i l, c.labelIn features assignments w i = some l → 0 ≤ l →
        assignments[i]? = some w →
        l + st.nextLabel < (c.labelWindow features assignments st w).nextLabel) ∧
      ∀ bound : Int, 0 ≤ bound →
        (∀ l ∈ (c.inner w (takeAt features (positions assignments w))).toList, l < bound) →
        (c.labelWindow features assignments st w).nextLabel ≤ st.nextLabel + bound := by
  have hmem := @mem_positive (c.inner w (takeAt features (positions assignments w))).toList _ hst
  unfold labelWindow labelIn
  dsimp only
  split
  · next hempty =>
    refine ⟨le_refl _, fun i l _ _ hi => ?_, fun bound hbound _ => by omega⟩
    exact absurd (mem_positions.mpr hi) (by rw [hempty]; exact List.not_mem_nil)
  · split
    · next hnone =>
      rw [hnone] at hmem
      refine ⟨le_refl _, fun i l hl h0 _ => ?_, fun bound hbound _ => by dsimp only; omega⟩
      exact absurd ((hmem _).mpr ⟨l, List.mem_of_getElem? hl, h0, rfl⟩) List.not_mem_nil
    · next first rest hsome =>
      rw [hsome] at hmem
      obtain ⟨hfirst, hrest⟩ := le_foldl_max rest first
      have hle : ∀ p ∈ first :: rest, p ≤ rest.foldl max first := List.forall_mem_cons.mpr ⟨hfirst, hrest⟩
      refine ⟨?_, fun i l hl h0 _ => ?_, fun bound hbound hsub => ?_⟩
      · obtain ⟨l, -, h0, hmoved⟩ := (hmem first).mp List.mem_cons_self
        dsimp only
        omega
      · have hmoved := hle _ ((hmem _).mpr ⟨l, List.mem_of_getElem? hl, h0, rfl⟩)
        dsimp only
        omega
      · have hmax : rest.foldl max first ≤ st.nextLabel + bound - 1 := by
          have hall : ∀ p ∈ first :: rest, p ≤ st.nextLabel + bound - 1 := by
            intro p hp
            obtain ⟨l, hl, -, hmoved⟩ := (hmem p).mp hp
            have hlt := hsub l hl
            omega
          obtain ⟨hf, hr⟩ := List.forall_mem_cons.mp hall
          exact foldl_max_le hf hr
        dsimp only
        omega

/-! ## All windows -/

theorem labelWindows_succ (labels : List Int) (k : ℕ) :
    c.labelWindows features assignments labels (k + 1) =
      c.labelWindow features assignments (c.labelWindows features assignments labels k) k := by
  unfold labelWindows
  rw [List.range_succ, List.foldl_concat]

theorem length_labelWindows (labels : List Int) (k : ℕ) :
    (c.labelWindows features assignments labels k).labels.length = labels.length := by
  induction k with
  | zero => rfl
  | succ k ih => rw [labelWindows_succ, length_labelWindow, ih]

theorem nextLabel_nonneg (labels : List Int) (k : ℕ) :
    0 ≤ (c.labelWindows features assignments labels k).nextLabel := by
  induction k with
  | zero => exact le_refl 0
  | succ k ih =>
    rw [labelWindows_succ]
    exact le_trans ih (labelWindow_next ih k).1

/-- A point keeps the label of its window, moved behind the windows before. -/
theorem labelWindows_label {labels : List Int} (hlabels : labels.length = assignments.length)
    {w i : ℕ} (hi : assignments[i]? = some w) {l : Int}
    (hl : c.labelIn features assignments w i = some l) {k : ℕ} (hk : w < k) :
    (c.labelWindows features assignments labels k).labels[i]? =
      some (if l < 0 then -1
        else l + (c.labelWindows features assignments labels w).nextLabel) := by
  induction k with
  | zero => exact absurd hk (Nat.not_lt_zero w)
  | succ k ih =>
    rw [labelWindows_succ]
    rcases Nat.lt_succ_iff_lt_or_eq.mp hk with hlt | rfl
    · have hother : assignments[i]? ≠ some k := by
        rw [hi]
        exact fun he => absurd (Option.some.inj he) (by omega)
      rw [labelWindow_other hother, ih hlt]
    · exact labelWindow_own hi hl ((length_labelWindows labels w).trans hlabels)

/-- The labels of a window are behind the next one. -/
theorem labelWindows_next (labels : List Int) {w i : ℕ} (hi : assignments[i]? = some w) {l : Int}
    (hl : c.labelIn features assignments w i = some l) (h0 : 0 ≤ l) {k : ℕ} (hk : w < k) :
    l + (c.labelWindows features assignments labels w).nextLabel <
      (c.labelWindows features assignments labels k).nextLabel := by
  induction k with
  | zero => exact absurd hk (Nat.not_lt_zero w)
  | succ k ih =>
    have hst : 0 ≤ (c.labelWindows features assignments labels k).nextLabel :=
      nextLabel_nonneg labels k
    obtain ⟨hle, hown, -⟩ := labelWindow_next hst k
    rw [labelWindows_succ]
    rcases Nat.lt_succ_iff_lt_or_eq.mp hk with hlt | rfl
    · exact lt_of_lt_of_le (ih hlt) hle
    · exact hown i l hl h0 hi

/-! ## The clusterer -/

theorem length_centers (order : List ℚ) : (c.centers order).length = c.nWindows order := by
  unfold centers
  rw [List.length_map, List.length_range]

theorem nWindows_pos (order : List ℚ) : 0 < c.nWindows order := by
  unfold nWindows
  dsimp only
  omega

/-- The window of a point is the first with the nearest center. -/
theorem assignments_nearest {order : List ℚ} {i : ℕ} {s : ℚ} (hs : order[i]? = some s) :
    ∃ w d, (c.assignments order)[i]? = some w ∧ FirstLeast (c.distances order s) w d ∧
      w < c.nWindows order := by
  have hlength : (c.distances order s).length = c.nWindows order := by
    unfold distances
    rw [List.length_map, length_centers]
  have hne : c.distances order s ≠ [] := by
    intro hempty
    have hpos := nWindows_pos (c := c) order
    rw [← hlength, hempty] at hpos
    exact absurd hpos (Nat.lt_irrefl 0)
  obtain ⟨w, d, hargmin, hleast⟩ := firstLeast_argmin _ hne
  refine ⟨w, d, ?_, hleast, ?_⟩
  · unfold assignments
    rw [List.getElem?_map, hs, Option.map_some, hargmin, Option.getD_some]
  · rw [← hlength]
    exact (List.getElem?_eq_some_iff.mp hleast.at_index).1

/-- Every point has a window, and a label of the inner clusterer there. -/
theorem exists_window (points : Points) {i : ℕ} (hi : i < points.rows.length) :
    ∃ s w d l, points.order[i]? = some s ∧ c.window points i = some w ∧
      FirstLeast (c.distances points.order s) w d ∧ w < c.nWindows points.order ∧
      c.innerLabel points i = some l ∧
      c.labelIn points.features (c.assignments points.order) w i = some l := by
  have horder : points.order.length = points.rows.length := List.length_map _
  have hindex : i < points.order.length := by omega
  have hs : points.order[i]? = some points.order[i] := List.getElem?_eq_getElem hindex
  obtain ⟨w, d, hw, hleast, hlt⟩ := assignments_nearest (c := c) hs
  have hlength : points.features.length = (c.assignments points.order).length := by
    unfold Points.features assignments
    rw [List.length_map, List.length_map, horder]
  obtain ⟨l, hl⟩ := exists_labelIn (c := c) hlength hw
  refine ⟨_, w, d, l, hs, hw, hleast, hlt, ?_, hl⟩
  unfold innerLabel
  rw [show c.window points i = some w from hw, Option.bind_some, hl]

/-- Labels of two windows differ: those of the earlier one end before those of the later one. -/
theorem moved_eq_iff (labels : List Int) {w w' i j : ℕ} (hi : assignments[i]? = some w)
    (hj : assignments[j]? = some w') {l l' : Int}
    (hl : c.labelIn features assignments w i = some l)
    (hl' : c.labelIn features assignments w' j = some l') (h0 : 0 ≤ l) (h0' : 0 ≤ l') :
    l + (c.labelWindows features assignments labels w).nextLabel =
        l' + (c.labelWindows features assignments labels w').nextLabel ↔ w = w' ∧ l = l' := by
  constructor
  · intro heq
    rcases lt_trichotomy w w' with hlt | rfl | hgt
    · have hnext := labelWindows_next labels hi hl h0 hlt
      omega
    · exact ⟨rfl, by omega⟩
    · have hnext := labelWindows_next labels hj hl' h0' hgt
      omega
  · intro hboth
    rw [hboth.1, hboth.2]

theorem fitPredict_ok (empty : ∀ n, Vector Int n) {points : Points} (hcols : 2 ≤ points.cols)
    (hne : points.rows ≠ []) :
    c.fitPredict empty points =
      .ok (c.labelWindows points.features (c.assignments points.order)
        (empty points.rows.length).toList (c.nWindows points.order)).labels := by
  unfold fitPredict
  rw [if_neg (by omega), if_neg (fun h => hne (List.length_eq_zero_iff.mp h))]

/-- Windows of ten, and a clusterer that calls the first point of each noise. -/
def tens : PerSegmentClusterer where
  inner _ features := ⟨((List.range features.length).map fun i : ℕ => (i : Int) - 1).toArray, by simp⟩
  windowSize := 10
  windowStride := 10
  size_pos := by norm_num
  stride_pos := by norm_num

def fourPoints : Points where
  cols := 2
  rows := [[0, 0], [100, 5], [1, 7], [99, 7]]
  shape := by decide

example : tens.fitPredict (fun n => Vector.replicate n 7) fourPoints = .ok [-1, -1, 0, 1] := by
  decide +kernel

end PerSegmentClusterer

end TraxMania.Clusterers
