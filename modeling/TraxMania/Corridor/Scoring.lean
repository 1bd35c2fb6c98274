import TraxMania.Corridor.CellGraph
import TraxMania.Lib.Extreme
import TraxMania.Lib.Table
import Mathlib.Analysis.SpecialFunctions.Log.Basic

/-
  The confidence of stored corridors (`src/corridor/scoring.py`, `score_map_corridors`): every
  traversed edge that has an evidence row is scored, and the corridor is as good as its weakest
  edge. The numbers are of any field with an order; `log` is `math.log`. The rules of the score are
  proved over the reals.
-/

namespace TraxMania.Corridor

open TraxMania.Grid Lib Lib.Extreme

/-! ## The score -/

/-- `EdgeEvidence`. -/
structure EdgeEvidence (φ : Type) where
  ruleSupport : Bool
  pathSupportCount : Int
  patternWeight : φ
  negativeEvidenceCount : Int

section Score

variable {φ : Type} [Field φ] [LinearOrder φ] (log : φ → φ)

/-- `max(0.0, min(1.0, value))`. -/
def clip (value : φ) : φ := max 0 (min 1 value)

/-- `_BASELINE`. -/
def baseline : φ := 1 / 2

/-- `_VIRTUAL_EDGE_FACTOR`. -/
def virtualEdgeFactor : φ := 4 / 5

/-- `path_boost`. -/
def pathBoost (perMapMaxPathSupport : Int) (ev : EdgeEvidence φ) : φ :=
  if 0 < perMapMaxPathSupport ∧ 0 < ev.pathSupportCount then
    log ((1 + ev.pathSupportCount : Int) : φ) / log ((1 + perMapMaxPathSupport : Int) : φ)
  else 0

/-- `raw`. -/
def rawScore (perMapMaxPathSupport : Int) (ev : EdgeEvidence φ) : φ :=
  baseline + 3 / 10 * pathBoost log perMapMaxPathSupport ev + 1 / 5 * clip ev.patternWeight

/-- `deco_factor`. -/
def decoFactor (ev : EdgeEvidence φ) : φ :=
  1 - 1 / 2 * clip ((ev.negativeEvidenceCount : φ) / 12)

/-- `score_edge(ev, per_map_max_path_support=…)`. -/
def scoreEdge (perMapMaxPathSupport : Int) (ev : EdgeEvidence φ) : φ :=
  if ev.ruleSupport then clip (rawScore log perMapMaxPathSupport ev * decoFactor ev) else 0

/-- `score_corridor(edge_evidences, contains_virtual_edge=…, per_map_max_path_support=…)`. -/
def scoreCorridor (edgeEvidences : List (EdgeEvidence φ)) (containsVirtualEdge : Bool)
    (perMapMaxPathSupport : Int) : φ :=
  match edgeEvidences with
  | [] => baseline
  | ev :: evs =>
    let confidence := (evs.map (scoreEdge log perMapMaxPathSupport)).foldl min
      (scoreEdge log perMapMaxPathSupport ev)
    clip (if containsVirtualEdge then confidence * virtualEdgeFactor else confidence)

/-! ## One map -/

/-- A row of `_FETCH_EVIDENCE_SQL`. -/
structure ScoredRow (φ : Type) where
  srcBlockId : Int
  dstBlockId : Int
  evidence : EdgeEvidence φ

def ScoredRow.ends (r : ScoredRow φ) : Int × Int := (r.srcBlockId, r.dstBlockId)

/-- The loop over the evidence rows: `edge_evidence` and `max_path_support`. Rows whose ends are not
    in order are skipped. -/
def loadEvidence (rows : List (ScoredRow φ)) : Dict (Int × Int) (EdgeEvidence φ) × Int :=
  rows.foldl (fun acc row =>
    if row.srcBlockId ≥ row.dstBlockId then acc
    else (acc.1.upsert row.ends fun _ => row.evidence,
      if row.evidence.pathSupportCount > acc.2 then row.evidence.pathSupportCount else acc.2))
    (Dict.empty, 0)

/-- The hops of a path between two cells with a placement, as ordered pairs. -/
def hops (cellToPid : Dict Cell Int) : List Cell → List (Int × Int)
  | a :: b :: cells =>
    match cellToPid.get? a, cellToPid.get? b with
    | some pidA, some pidB => loHi pidA pidB :: hops cellToPid (b :: cells)
    | _, _ => hops cellToPid (b :: cells)
  | _ => []

/-- The evidence rows of a map at a version. `uq_trv_ev_edge` keeps their ends apart. -/
abbrev MapEvidence (φ : Type) := Table (ScoredRow.ends (φ := φ))

/-- The confidence of a path. -/
def corridorConfidence (placements : List GridPlacement) (rows : MapEvidence φ) (cells : List Cell)
    (containsVirtualEdge : Bool) : φ :=
  let loaded := loadEvidence rows.rows
  scoreCorridor log ((hops (cellToPlacementMap placements) cells).filterMap loaded.1.get?)
    containsVirtualEdge loaded.2

/-- A row of `_FETCH_CORRIDORS_SQL`; the cells are what `json.loads` makes of the text, `none` where
    that raises. -/
structure StoredPath where
  id : Int
  cells : Option (List Cell)
  containsVirtualEdge : Bool

/-- `score_map_corridors`: the parameters of its updates. -/
def scoreMapCorridors (placements : List GridPlacement) (rows : MapEvidence φ)
    (corridors : List StoredPath) (scoreVersion : String) : List (φ × String × Int) :=
  if placements = [] then []
  else corridors.filterMap fun c => c.cells.map fun cells =>
    (corridorConfidence log placements rows cells c.containsVirtualEdge, scoreVersion, c.id)

end Score

/-! ## The rows that count -/

section Rows

variable {φ : Type}

/-- The ends of a row are in order. -/
def ScoredRow.Ordered (r : ScoredRow φ) : Prop := r.srcBlockId < r.dstBlockId

instance : DecidablePred (ScoredRow.Ordered (φ := φ)) := fun r =>
  inferInstanceAs (Decidable (r.srcBlockId < r.dstBlockId))

/-- The largest path support of the map. -/
def maxPathSupport (rows : List (ScoredRow φ)) : Int :=
  ((rows.filter fun r => decide r.Ordered).map fun r => r.evidence.pathSupportCount).foldl max 0

theorem loadEvidence_eq (rows : List (ScoredRow φ)) :
    loadEvidence rows =
      ((rows.filter fun r => decide r.Ordered).foldl
        (fun acc r => acc.upsert r.ends fun _ => r.evidence) Dict.empty, maxPathSupport rows) := by
  have hloop : ∀ (rows : List (ScoredRow φ)) (acc : Dict (Int × Int) (EdgeEvidence φ) × Int),
      (rows.foldl (fun acc row =>
        if row.srcBlockId ≥ row.dstBlockId then acc
        else (acc.1.upsert row.ends fun _ => row.evidence,
          if row.evidence.pathSupportCount > acc.2 then row.evidence.pathSupportCount else acc.2))
        acc) =
      ((rows.filter fun r => decide r.Ordered).foldl
        (fun acc r => acc.upsert r.ends fun _ => r.evidence) acc.1,
        ((rows.filter fun r => decide r.Ordered).map fun r =>
          r.evidence.pathSupportCount).foldl max acc.2) := by
    intro rows
    induction rows with
    | nil => exact fun _ => rfl
    | cons row rows ih =>
      intro acc
      rw [List.foldl_cons, ih, List.filter_cons]
      by_cases hrow : row.Ordered
      · have hmax : (if row.evidence.pathSupportCount > acc.2 then row.evidence.pathSupportCount
            else acc.2) = max acc.2 row.evidence.pathSupportCount := by
          split
          · omega
          · omega
        rw [if_neg (not_le.mpr hrow), if_pos (decide_eq_true hrow), hmax]
        rfl
      · rw [if_pos (not_lt.mp hrow), if_neg (by simpa using hrow)]
  exact hloop rows _

/-- The evidence of an edge is that of its row. -/
theorem get?_loadEvidence (rows : MapEvidence φ) (ends : Int × Int) (ev : EdgeEvidence φ) :
    (loadEvidence rows.rows).1.get? ends = some ev ↔
      ∃ r ∈ rows.rows, r.Ordered ∧ r.ends = ends ∧ r.evidence = ev := by
  rw [loadEvidence_eq]
  dsimp only
  have hnodup : ((rows.rows.filter fun r => decide r.Ordered).map ScoredRow.ends).Nodup :=
    rows.nodup.sublist (List.filter_sublist.map _)
  rw [Dict.get?_foldl_of_nodup hnodup]
  constructor
  · rintro ⟨r, hr, hends, hev⟩
    obtain ⟨hr, hordered⟩ := List.mem_filter.mp hr
    exact ⟨r, hr, of_decide_eq_true hordered, hends, hev⟩
  · rintro ⟨r, hr, hordered, hends, hev⟩
    exact ⟨r, List.mem_filter.mpr ⟨hr, decide_eq_true hordered⟩, hends, hev⟩

theorem le_maxPathSupport {rows : List (ScoredRow φ)} {r : ScoredRow φ} (hr : r ∈ rows)
    (hordered : r.Ordered) : r.evidence.pathSupportCount ≤ maxPathSupport rows :=
  (le_foldl_max _ 0).2 _ (List.mem_map.mpr
    ⟨r, List.mem_filter.mpr ⟨hr, decide_eq_true hordered⟩, rfl⟩)

end Rows

/-! ## The score over the reals -/

section Real

theorem clip_nonneg (v : ℝ) : 0 ≤ clip v := le_max_left 0 _

theorem clip_le_one (v : ℝ) : clip v ≤ 1 := max_le zero_le_one (min_le_left 1 v)

theorem clip_mono {v w : ℝ} (h : v ≤ w) : clip v ≤ clip w := max_le_max_left 0 (min_le_min_left 1 h)

theorem clip_of_unit {v : ℝ} (h0 : 0 ≤ v) (h1 : v ≤ 1) : clip v = v := by
  unfold clip
  rw [min_eq_right h1, max_eq_right h0]

variable {m : Int} {ev ev' : EdgeEvidence ℝ}

theorem log_pos_of_pos {n : Int} (h : 0 < n) : 0 < Real.log ((1 + n : Int) : ℝ) := by
  refine Real.log_pos ?_
  have h : (1 : Int) < 1 + n := by omega
  exact_mod_cast h

theorem pathBoost_nonneg (m : Int) (ev : EdgeEvidence ℝ) : 0 ≤ pathBoost Real.log m ev := by
  unfold pathBoost
  split
  · next h => exact div_nonneg (log_pos_of_pos h.2).le (log_pos_of_pos h.1).le
  · exact le_refl 0

/-- More support raises the boost. -/
theorem pathBoost_mono (h : ev.pathSupportCount ≤ ev'.pathSupportCount) :
    pathBoost Real.log m ev ≤ pathBoost Real.log m ev' := by
  by_cases hpos : 0 < m ∧ 0 < ev.pathSupportCount
  · have hpos' : 0 < m ∧ 0 < ev'.pathSupportCount := ⟨hpos.1, lt_of_lt_of_le hpos.2 h⟩
    have hone : (0 : ℝ) < ((1 + ev.pathSupportCount : Int) : ℝ) := by
      have h : 0 < 1 + ev.pathSupportCount := by omega
      exact_mod_cast h
    have hle : ((1 + ev.pathSupportCount : Int) : ℝ) ≤ ((1 + ev'.pathSupportCount : Int) : ℝ) := by
      have h : 1 + ev.pathSupportCount ≤ 1 + ev'.pathSupportCount := by omega
      exact_mod_cast h
    unfold pathBoost
    rw [if_pos hpos, if_pos hpos']
    exact div_le_div_of_nonneg_right (Real.log_le_log hone hle) (log_pos_of_pos hpos.1).le
  · have hzero : pathBoost Real.log m ev = 0 := if_neg hpos
    rw [hzero]
    exact pathBoost_nonneg m ev'

theorem rawScore_nonneg (m : Int) (ev : EdgeEvidence ℝ) : 0 ≤ rawScore Real.log m ev := by
  have hboost := pathBoost_nonneg m ev
  have hpattern := clip_nonneg ev.patternWeight
  unfold rawScore baseline
  linarith

theorem decoFactor_nonneg (ev : EdgeEvidence ℝ) : 0 ≤ decoFactor ev := by
  have hneg := clip_le_one ((ev.negativeEvidenceCount : ℝ) / 12)
  unfold decoFactor
  linarith

/-- More support, more weight, less negative evidence. -/
structure Better (ev ev' : EdgeEvidence ℝ) : Prop where
  ruleSupport : ev'.ruleSupport = ev.ruleSupport
  pathSupport : ev.pathSupportCount ≤ ev'.pathSupportCount
  patternWeight : ev.patternWeight ≤ ev'.patternWeight
  negativeEvidence : ev'.negativeEvidenceCount ≤ ev.negativeEvidenceCount

theorem rawScore_mono (h : Better ev ev') : rawScore Real.log m ev ≤ rawScore Real.log m ev' := by
  have hboost := pathBoost_mono (m := m) h.pathSupport
  have hpattern := clip_mono h.patternWeight
  unfold rawScore
  linarith

theorem decoFactor_mono (h : Better ev ev') : decoFactor ev ≤ decoFactor ev' := by
  have hcast : (ev'.negativeEvidenceCount : ℝ) ≤ ev.negativeEvidenceCount := by
    exact_mod_cast h.negativeEvidence
  have hneg := clip_mono (div_le_div_of_nonneg_right hcast (by norm_num : (0 : ℝ) ≤ 12))
  unfold decoFactor
  linarith

theorem scoreEdge_mono (h : Better ev ev') :
    scoreEdge Real.log m ev ≤ scoreEdge Real.log m ev' := by
  unfold scoreEdge
  rw [h.ruleSupport]
  split
  · refine clip_mono (mul_le_mul (rawScore_mono h) (decoFactor_mono h) (decoFactor_nonneg ev) ?_)
    exact rawScore_nonneg m ev'
  · exact le_refl 0

theorem scoreEdge_unit (m : Int) (ev : EdgeEvidence ℝ) :
    0 ≤ scoreEdge Real.log m ev ∧ scoreEdge Real.log m ev ≤ 1 := by
  unfold scoreEdge
  split
  · exact ⟨clip_nonneg _, clip_le_one _⟩
  · exact ⟨le_refl 0, zero_le_one⟩

/-! ## The weakest edge -/

/-- The score of the weakest edge. -/
noncomputable def weakest (m : Int) (ev : EdgeEvidence ℝ) (evs : List (EdgeEvidence ℝ)) : ℝ :=
  (evs.map (scoreEdge Real.log m)).foldl min (scoreEdge Real.log m ev)

theorem weakest_unit (m : Int) (ev : EdgeEvidence ℝ) (evs : List (EdgeEvidence ℝ)) :
    0 ≤ weakest m ev evs ∧ weakest m ev evs ≤ 1 := by
  unfold weakest
  refine ⟨le_foldl_min (scoreEdge_unit m ev).1 fun x hx => ?_,
    le_trans (foldl_min_le _ _).1 (scoreEdge_unit m ev).2⟩
  obtain ⟨ev', -, rfl⟩ := List.mem_map.mp hx
  exact (scoreEdge_unit m ev').1

theorem weakest_le {evs : List (EdgeEvidence ℝ)} (h : ev' ∈ ev :: evs) :
    weakest m ev evs ≤ scoreEdge Real.log m ev' := by
  obtain ⟨hhead, htail⟩ := foldl_min_le (evs.map (scoreEdge Real.log m)) (scoreEdge Real.log m ev)
  rcases List.mem_cons.mp h with rfl | h
  · exact hhead
  · exact htail _ (List.mem_map_of_mem h)

theorem virtualEdgeFactor_unit : (0 : ℝ) ≤ virtualEdgeFactor ∧ (virtualEdgeFactor : ℝ) ≤ 1 := by
  unfold virtualEdgeFactor
  constructor
  · norm_num
  · norm_num

/-- With a scored edge the factor of the virtual edge is applied to the weakest one. -/
theorem scoreCorridor_cons (ev : EdgeEvidence ℝ) (evs : List (EdgeEvidence ℝ)) (virtual : Bool)
    (m : Int) :
    scoreCorridor Real.log (ev :: evs) virtual m =
      if virtual then virtualEdgeFactor * weakest m ev evs else weakest m ev evs := by
  obtain ⟨h0, h1⟩ := weakest_unit m ev evs
  show clip (if virtual then weakest m ev evs * virtualEdgeFactor else weakest m ev evs) = _
  cases virtual with
  | true =>
    rw [if_pos rfl, if_pos rfl, mul_comm]
    exact clip_of_unit (mul_nonneg virtualEdgeFactor_unit.1 h0)
      (mul_le_one₀ virtualEdgeFactor_unit.2 h0 h1)
  | false => exact clip_of_unit h0 h1

end Real

/-! ## Raised evidence -/

/-- A row whose evidence became better, with a path support that is not above `m`. -/
structure Raised (m : Int) (r r' : ScoredRow ℝ) : Prop where
  ends : r'.ends = r.ends
  better : Better r.evidence r'.evidence
  within : r'.evidence.pathSupportCount ≤ max r.evidence.pathSupportCount m

section Raise

variable {m : Int}

theorem Raised.ordered_iff {r r' : ScoredRow ℝ} (h : Raised m r r') : r'.Ordered ↔ r.Ordered := by
  obtain ⟨hsrc, hdst⟩ := Prod.mk.inj h.ends
  unfold ScoredRow.Ordered
  rw [hsrc, hdst]

theorem forall₂_mem {α β : Type*} {R : α → β → Prop} {xs : List α} {ys : List β}
    (h : List.Forall₂ R xs ys) :
    (∀ x ∈ xs, ∃ y ∈ ys, R x y) ∧ ∀ y ∈ ys, ∃ x ∈ xs, R x y := by
  induction h with
  | nil => exact ⟨fun _ h => absurd h List.not_mem_nil, fun _ h => absurd h List.not_mem_nil⟩
  | @cons x y xs ys hxy _ ih =>
    constructor
    · refine List.forall_mem_cons.mpr ⟨⟨y, List.mem_cons_self, hxy⟩, fun x' hx' => ?_⟩
      obtain ⟨y', hy', hR⟩ := ih.1 x' hx'
      exact ⟨y', List.mem_cons_of_mem _ hy', hR⟩
    · refine List.forall_mem_cons.mpr ⟨⟨x, List.mem_cons_self, hxy⟩, fun y' hy' => ?_⟩
      obtain ⟨x', hx', hR⟩ := ih.2 y' hy'
      exact ⟨x', List.mem_cons_of_mem _ hx', hR⟩

/-- The largest path support stays what it was. -/
theorem maxPathSupport_raised {rows rows' : List (ScoredRow ℝ)}
    (h : List.Forall₂ (Raised (maxPathSupport rows)) rows rows') :
    maxPathSupport rows' = maxPathSupport rows := by
  have hzero : ∀ rows : List (ScoredRow ℝ), 0 ≤ maxPathSupport rows := fun rows =>
    (le_foldl_max _ 0).1
  obtain ⟨hleft, hright⟩ := forall₂_mem h
  refine le_antisymm (foldl_max_le (hzero rows) ?_) (foldl_max_le (hzero rows') ?_)
  · intro x hx
    obtain ⟨r', hr', rfl⟩ := List.mem_map.mp hx
    obtain ⟨hr', hordered⟩ := List.mem_filter.mp hr'
    obtain ⟨r, hr, hraised⟩ := hright r' hr'
    have hle := le_maxPathSupport hr (hraised.ordered_iff.mp (of_decide_eq_true hordered))
    have hwithin := hraised.within
    rwa [max_eq_right hle] at hwithin
  · intro x hx
    obtain ⟨r, hr, rfl⟩ := List.mem_map.mp hx
    obtain ⟨hr, hordered⟩ := List.mem_filter.mp hr
    obtain ⟨r', hr', hraised⟩ := hleft r hr
    exact le_trans hraised.better.pathSupport
      (le_maxPathSupport hr' (hraised.ordered_iff.mpr (of_decide_eq_true hordered)))

/-- The same edges have evidence, and it is better. -/
theorem filterMap_raised {rows rows' : MapEvidence ℝ}
    (h : List.Forall₂ (Raised m) rows.rows rows'.rows) (steps : List (Int × Int)) :
    List.Forall₂ Better (steps.filterMap (loadEvidence rows.rows).1.get?)
      (steps.filterMap (loadEvidence rows'.rows).1.get?) := by
  obtain ⟨hleft, hright⟩ := forall₂_mem h
  induction steps with
  | nil => exact List.Forall₂.nil
  | cons ends steps ih =>
    cases hget : (loadEvidence rows.rows).1.get? ends with
    | none =>
      have hnone : (loadEvidence rows'.rows).1.get? ends = none := by
        rw [Option.eq_none_iff_forall_ne_some]
        intro ev' hev'
        obtain ⟨r', hr', hordered, hends, -⟩ := (get?_loadEvidence rows' ends ev').mp hev'
        obtain ⟨r, hr, hraised⟩ := hright r' hr'
        have hsome := (get?_loadEvidence rows ends r.evidence).mpr
          ⟨r, hr, hraised.ordered_iff.mp hordered, hraised.ends.symm.trans hends, rfl⟩
        rw [hget] at hsome
        cases hsome
      rw [List.filterMap_cons_none hget, List.filterMap_cons_none hnone]
      exact ih
    | some ev =>
      obtain ⟨r, hr, hordered, hends, rfl⟩ := (get?_loadEvidence rows ends ev).mp hget
      obtain ⟨r', hr', hraised⟩ := hleft r hr
      have hget' := (get?_loadEvidence rows' ends r'.evidence).mpr
        ⟨r', hr', hraised.ordered_iff.mpr hordered, hraised.ends.trans hends, rfl⟩
      rw [List.filterMap_cons_some hget, List.filterMap_cons_some hget']
      exact List.Forall₂.cons hraised.better ih

theorem scoreCorridor_mono {evs evs' : List (EdgeEvidence ℝ)} (h : List.Forall₂ Better evs evs')
    (virtual : Bool) :
    scoreCorridor Real.log evs virtual m ≤ scoreCorridor Real.log evs' virtual m := by
  cases h with
  | nil => exact le_refl _
  | @cons ev ev' evs evs' hhead htail =>
    have hscores : List.Forall₂ (· ≤ ·) (evs.map (scoreEdge Real.log m))
        (evs'.map (scoreEdge Real.log m)) := by
      rw [List.forall₂_map_left_iff, List.forall₂_map_right_iff]
      exact htail.imp fun _ _ hb => scoreEdge_mono hb
    have hweakest : weakest m ev evs ≤ weakest m ev' evs' :=
      foldl_min_mono hscores (scoreEdge_mono hhead)
    rw [scoreCorridor_cons, scoreCorridor_cons]
    split
    · exact mul_le_mul_of_nonneg_left hweakest virtualEdgeFactor_unit.1
    · exact hweakest

end Raise

/-! ## The published rules -/

/-- A hop of the path has an evidence row. -/
def HasEvidence (placements : List GridPlacement) (rows : MapEvidence ℝ) (cells : List Cell) :
    Prop :=
  ∃ r ∈ rows.rows, r.Ordered ∧ r.ends ∈ hops (cellToPlacementMap placements) cells

section Rules

variable (placements : List GridPlacement) (rows : MapEvidence ℝ) (cells : List Cell)

theorem mem_edgeEvidences {ev : EdgeEvidence ℝ} :
    ev ∈ (hops (cellToPlacementMap placements) cells).filterMap (loadEvidence rows.rows).1.get? ↔
      ∃ r ∈ rows.rows, r.Ordered ∧ r.ends ∈ hops (cellToPlacementMap placements) cells ∧
        r.evidence = ev := by
  rw [List.mem_filterMap]
  simp only [get?_loadEvidence]
  constructor
  · rintro ⟨ends, hends, r, hr, hordered, rfl, hev⟩
    exact ⟨r, hr, hordered, hends, hev⟩
  · rintro ⟨r, hr, hordered, hends, hev⟩
    exact ⟨r.ends, hends, r, hr, hordered, rfl, hev⟩

theorem corridorConfidence_unit (virtual : Bool) :
    0 ≤ corridorConfidence Real.log placements rows cells virtual ∧
      corridorConfidence Real.log placements rows cells virtual ≤ 1 := by
  unfold corridorConfidence
  dsimp only
  cases (hops (cellToPlacementMap placements) cells).filterMap (loadEvidence rows.rows).1.get? with
  | nil =>
    show (0 : ℝ) ≤ baseline ∧ (baseline : ℝ) ≤ 1
    unfold baseline
    norm_num
  | cons ev evs => exact ⟨clip_nonneg _, clip_le_one _⟩

/-- A traversed edge without rule support brings the score to 0. -/
theorem corridorConfidence_gate (virtual : Bool) {r : ScoredRow ℝ} (hr : r ∈ rows.rows)
    (hordered : r.Ordered) (hends : r.ends ∈ hops (cellToPlacementMap placements) cells)
    (hrule : r.evidence.ruleSupport = false) :
    corridorConfidence Real.log placements rows cells virtual = 0 := by
  have hmem := (mem_edgeEvidences placements rows cells).mpr ⟨r, hr, hordered, hends, rfl⟩
  unfold corridorConfidence
  dsimp only
  cases hevs : (hops (cellToPlacementMap placements) cells).filterMap
      (loadEvidence rows.rows).1.get? with
  | nil =>
    rw [hevs] at hmem
    exact absurd hmem List.not_mem_nil
  | cons ev evs =>
    rw [hevs] at hmem
    have hle := weakest_le (m := (loadEvidence rows.rows).2) hmem
    have hscore : scoreEdge Real.log (loadEvidence rows.rows).2 r.evidence = 0 := by
      unfold scoreEdge
      rw [hrule]
      rfl
    have hzero : weakest (loadEvidence rows.rows).2 ev evs = 0 :=
      le_antisymm (by rwa [hscore] at hle) (weakest_unit _ ev evs).1
    rw [scoreCorridor_cons, hzero, mul_zero, ite_self]

/-- The discount of a virtual edge is applied exactly to paths with a scored edge. -/
theorem corridorConfidence_discount :
    corridorConfidence Real.log placements rows cells true =
        virtualEdgeFactor * corridorConfidence Real.log placements rows cells false ↔
      HasEvidence placements rows cells := by
  have hmem : ∀ ev : EdgeEvidence ℝ,
      ev ∈ (hops (cellToPlacementMap placements) cells).filterMap (loadEvidence rows.rows).1.get? ↔
        _ := fun ev => mem_edgeEvidences placements rows cells
  unfold corridorConfidence
  dsimp only
  cases hevs : (hops (cellToPlacementMap placements) cells).filterMap
      (loadEvidence rows.rows).1.get? with
  | nil =>
    rw [hevs] at hmem
    refine iff_of_false ?_ ?_
    · show ¬ (baseline : ℝ) = virtualEdgeFactor * baseline
      unfold baseline virtualEdgeFactor
      norm_num
    · rintro ⟨r, hr, hordered, hends⟩
      exact List.not_mem_nil ((hmem r.evidence).mpr ⟨r, hr, hordered, hends, rfl⟩)
  | cons ev evs =>
    rw [hevs] at hmem
    refine iff_of_true ?_ ?_
    · rw [scoreCorridor_cons, scoreCorridor_cons]
      rfl
    · obtain ⟨r, hr, hordered, hends, -⟩ := (hmem ev).mp List.mem_cons_self
      exact ⟨r, hr, hordered, hends⟩

/-- The rules of the score: it is between 0 and 1, it is 0 when a traversed edge has no rule
    support, and better evidence does not lower it. A flagged corridor has 4/5 of what its path has
    without the flag exactly when a hop of it has an evidence row. -/
theorem published_rules :
    (∀ virtual, 0 ≤ corridorConfidence Real.log placements rows cells virtual ∧
      corridorConfidence Real.log placements rows cells virtual ≤ 1) ∧
    (∀ virtual, ∀ r ∈ rows.rows, r.Ordered →
      r.ends ∈ hops (cellToPlacementMap placements) cells → r.evidence.ruleSupport = false →
      corridorConfidence Real.log placements rows cells virtual = 0) ∧
    (∀ (virtual : Bool) (rows' : MapEvidence ℝ),
      List.Forall₂ (Raised (maxPathSupport rows.rows)) rows.rows rows'.rows →
      corridorConfidence Real.log placements rows cells virtual ≤
        corridorConfidence Real.log placements rows' cells virtual) ∧
    (corridorConfidence Real.log placements rows cells true =
        virtualEdgeFactor * corridorConfidence Real.log placements rows cells false ↔
      HasEvidence placements rows cells) := by
  refine ⟨corridorConfidence_unit placements rows cells, ?_, ?_,
    corridorConfidence_discount placements rows cells⟩
  · exact fun virtual r hr => corridorConfidence_gate placements rows cells virtual hr
  · intro virtual rows' hraised
    unfold corridorConfidence
    dsimp only
    have hmax : (loadEvidence rows'.rows).2 = (loadEvidence rows.rows).2 := by
      rw [loadEvidence_eq, loadEvidence_eq]
      exact maxPathSupport_raised hraised
    rw [hmax]
    exact scoreCorridor_mono (filterMap_raised hraised _) virtual

end Rules

/-- Two roads away from each other. -/
def twoRoads : List GridPlacement := [⟨1, ⟨0, 0, 0⟩, "Road"⟩, ⟨2, ⟨5, 0, 0⟩, "Road"⟩]

/-- The jump between them. -/
def jumpPath (containsVirtualEdge : Bool) : StoredPath :=
  ⟨7, some [⟨0, 0, 0⟩, ⟨5, 0, 0⟩], containsVirtualEdge⟩

/-- The jump is the only hop and has no evidence row: the flag makes no difference. -/
theorem jump_not_discounted :
    scoreMapCorridors Real.log twoRoads Table.empty [jumpPath true] "0.1.0" =
        [(1 / 2, "0.1.0", 7)] ∧
      scoreMapCorridors Real.log twoRoads Table.empty [jumpPath false] "0.1.0" =
        [(1 / 2, "0.1.0", 7)] ∧
      (1 / 2 : ℝ) ≠ virtualEdgeFactor * (1 / 2) := by
  have hnone : ∀ steps : List (Int × Int),
      steps.filterMap (loadEvidence (Table.empty : MapEvidence ℝ).rows).1.get? = [] := by
    intro steps
    exact List.filterMap_eq_nil_iff.mpr fun _ _ => rfl
  have hconf : ∀ virtual, corridorConfidence Real.log twoRoads Table.empty
      [⟨0, 0, 0⟩, ⟨5, 0, 0⟩] virtual = 1 / 2 := by
    intro virtual
    unfold corridorConfidence
    dsimp only
    rw [hnone]
    rfl
  refine ⟨?_, ?_, ?_⟩
  · exact congrArg (fun v : ℝ => [(v, "0.1.0", (7 : Int))]) (hconf true)
  · exact congrArg (fun v : ℝ => [(v, "0.1.0", (7 : Int))]) (hconf false)
  · unfold virtualEdgeFactor
    norm_num

end TraxMania.Corridor
