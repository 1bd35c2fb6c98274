import TraxMania.Corridor.RouteCorridors
import TraxMania.Lib.Outcome

/-
  Re-running a builder. A run that reaches its DELETE replaces the rows of its key exactly; a run
  that finds nothing to write returns before it, and leaves the rows of an earlier run.
-/

namespace TraxMania.Corridor

open TraxMania.Grid Lib Lib.Outcome

/-! ## The rows of an interval -/

/-- The rows of an interval: its best paths in ranked order, ranked from 0, at most `top_n`. -/
structure RankedRows (topN : Option Int) (iv : IntervalEnumeration) (rows : List CorridorRow) :
    Prop where
  interval : ∀ r ∈ rows, r.interval = (iv.srcTag, iv.srcOrder, iv.dstTag, iv.dstOrder)
  ranks : rows.map (·.pathRank) = List.range rows.length
  cells : rows.map (·.pathCells) = (keepTop topN (rankPaths iv.paths)).map dumpCells
  length_le : ∀ n ∈ topN, 0 < n → rows.length ≤ n.toNat

theorem keepTop_length_le {α : Type} (topN : Option Int) (ranked : List α) :
    ∀ n ∈ topN, 0 < n → (keepTop topN ranked).length ≤ n.toNat := by
  intro n hn hpos
  obtain rfl : topN = some n := hn
  unfold keepTop
  simp only [if_pos hpos]
  exact List.length_take_le n.toNat ranked

/-- A positive cut keeps something of a list that is not empty. -/
theorem keepTop_eq_nil {α : Type} {topN : Option Int} {ranked : List α} :
    keepTop topN ranked = [] ↔ ranked = [] := by
  unfold keepTop
  split
  · exact Iff.rfl
  · next n =>
    split
    · next hpos =>
      rw [List.take_eq_nil_iff]
      constructor
      · intro h
        exact h.resolve_left (by omega)
      · exact Or.inr
    · exact Iff.rfl

theorem rankPaths_eq_nil {paths : List (List Cell)} : rankPaths paths = [] ↔ paths = [] := by
  unfold rankPaths
  constructor
  · intro h
    have hperm := SortBy.sortBy_perm rankKey paths
    rw [h] at hperm
    exact hperm.symm.eq_nil
  · rintro rfl
    rfl

theorem intervalRows_eq (virtualEdges : Finset (Cell × Cell)) (version : String)
    (topN : Option Int) (mapId : Int) (iv : IntervalEnumeration) :
    intervalRows virtualEdges version topN mapId iv =
      (keepTop topN (rankPaths iv.paths)).mapIdx (corridorRow virtualEdges version mapId iv) := by
  unfold intervalRows
  split
  · next h =>
    have hnil : keepTop topN (rankPaths iv.paths) = [] :=
      keepTop_eq_nil.mpr (rankPaths_eq_nil.mpr h)
    rw [hnil]
    rfl
  · rfl

theorem rankedRows_intervalRows (virtualEdges : Finset (Cell × Cell)) (version : String)
    (topN : Option Int) (mapId : Int) (iv : IntervalEnumeration) :
    RankedRows topN iv (intervalRows virtualEdges version topN mapId iv) := by
  rw [intervalRows_eq]
  refine ⟨fun r hr => ?_, ?_, ?_, ?_⟩
  · obtain ⟨i, hi, rfl⟩ := List.mem_mapIdx.mp hr
    rfl
  · refine List.ext_getElem (by simp) fun i hi _ => ?_
    simp [corridorRow]
  · refine List.ext_getElem (by simp) fun i hi _ => ?_
    simp [corridorRow]
  · intro n hn hpos
    rw [List.length_mapIdx]
    exact keepTop_length_le topN _ n hn hpos

/-- The rows carry the key of the run. -/
theorem intervalRows_key {virtualEdges : Finset (Cell × Cell)} {version : String}
    {topN : Option Int} {mapId : Int} {iv : IntervalEnumeration} :
    ∀ r ∈ intervalRows virtualEdges version topN mapId iv,
      r.mapId = mapId ∧ r.classificationVersion = version := by
  intro r hr
  rw [intervalRows_eq] at hr
  obtain ⟨i, hi, rfl⟩ := List.mem_mapIdx.mp hr
  exact ⟨rfl, rfl⟩

theorem intervalRows_eq_nil {virtualEdges : Finset (Cell × Cell)} {version : String}
    {topN : Option Int} {mapId : Int} {iv : IntervalEnumeration} :
    intervalRows virtualEdges version topN mapId iv = [] ↔ iv.paths = [] := by
  rw [intervalRows_eq, List.mapIdx_eq_nil_iff, keepTop_eq_nil, rankPaths_eq_nil]

/-! ## Delete, then insert -/

/-- After the rows of a key are deleted and others of that key inserted, the key has those. -/
theorem filter_replaced {α κ : Type} {key : α → κ} [DecidableEq κ] {accepted : Except String Unit}
    {rows : List α} {t t' : Table key} {p : α → Bool} (hrows : ∀ r ∈ rows, p r = true)
    (h : insertRows accepted rows (t.delete p) = .ok t') : t'.rows.filter p = rows := by
  rw [rows_of_insertRows h, List.filter_append]
  have hold : (t.delete p).rows.filter p = [] := by
    rw [List.filter_eq_nil_iff]
    intro r hr hp
    have hnot : (!p r) = true := (List.mem_filter.mp hr).2
    rw [hp] at hnot
    cases hnot
  rw [hold, List.filter_eq_self.mpr hrows]
  rfl

/-! ## Route corridors -/

section

variable {φ : Type} [FloatOps φ] {order : SetOrder} {reads : MapReads φ}

/-- The rows of the current enumeration; without an interval there are none. -/
def currentCorridors (order : SetOrder) (reads : MapReads φ) (version : String)
    (topN : Option Int) (mapId : Int) : Except String (List CorridorRow) := do
  let intervals ← enumerateMap order reads mapId
  if intervals.isEmpty then return []
  else corridorRows order reads version topN mapId intervals

/-- The current enumeration finds a path. -/
def HasPath (order : SetOrder) (reads : MapReads φ) (mapId : Int) : Prop :=
  ∃ intervals, enumerateMap order reads mapId = .ok intervals ∧ ∃ iv ∈ intervals, iv.paths ≠ []

/-- The rows of an enumeration, interval by interval. -/
structure CurrentRows (order : SetOrder) (reads : MapReads φ) (version : String)
    (topN : Option Int) (mapId : Int) (rows : List CorridorRow) : Prop where
  current : currentCorridors order reads version topN mapId = .ok rows
  ranked : ∃ intervals parts, enumerateMap order reads mapId = .ok intervals ∧
    List.Forall₂ (RankedRows topN) intervals parts ∧ rows = parts.flatten
  key : ∀ r ∈ rows, r.mapId = mapId ∧ r.classificationVersion = version
  empty_iff : rows = [] ↔ ¬ HasPath order reads mapId

theorem corridorRows_ok {version : String} {topN : Option Int} {mapId : Int}
    {intervals : List IntervalEnumeration} {rows : List CorridorRow}
    (h : corridorRows order reads version topN mapId intervals = .ok rows) :
    ∃ virtualEdges, rows = intervals.flatMap (intervalRows virtualEdges version topN mapId) := by
  unfold corridorRows at h
  obtain ⟨virtualEdges, -, h⟩ := bind_eq_ok.mp h
  exact ⟨virtualEdges, (Except.ok.inj h).symm⟩

/-- What the rows of an enumeration are. -/
theorem currentRows_of_ok {version : String} {topN : Option Int} {mapId : Int}
    {intervals : List IntervalEnumeration} {rows : List CorridorRow}
    (henum : enumerateMap order reads mapId = .ok intervals)
    (h : (if intervals.isEmpty then .ok []
      else corridorRows order reads version topN mapId intervals) = .ok rows) :
    CurrentRows order reads version topN mapId rows := by
  obtain ⟨virtualEdges, hrows⟩ : ∃ virtualEdges, rows =
      intervals.flatMap (intervalRows virtualEdges version topN mapId) := by
    split at h
    · next hempty =>
      rw [List.isEmpty_iff.mp hempty]
      exact ⟨∅, (Except.ok.inj h).symm⟩
    · exact corridorRows_ok h
  refine ⟨?_, ?_, ?_, ?_⟩
  · unfold currentCorridors
    rw [henum]
    exact h
  · refine ⟨intervals, intervals.map (intervalRows virtualEdges version topN mapId), henum, ?_, ?_⟩
    · rw [List.forall₂_map_right_iff, List.forall₂_same]
      exact fun iv _ => rankedRows_intervalRows virtualEdges version topN mapId iv
    · rw [hrows, List.flatMap_def]
  · intro r hr
    rw [hrows] at hr
    obtain ⟨iv, -, hr⟩ := List.mem_flatMap.mp hr
    exact intervalRows_key r hr
  · unfold HasPath
    rw [hrows, List.flatMap_eq_nil_iff]
    constructor
    · rintro hnone ⟨intervals', henum', iv, hiv, hpaths⟩
      obtain rfl := Except.ok.inj (henum.symm.trans henum')
      exact hpaths (intervalRows_eq_nil.mp (hnone iv hiv))
    · intro hnone iv hiv
      rw [intervalRows_eq_nil]
      by_contra hpaths
      exact hnone ⟨intervals, henum, iv, hiv, hpaths⟩

/-- A run that returns: nothing found, nothing touched; else the key has the current rows. -/
theorem buildRouteCorridors_ok {accepted : Except String Unit} {version : String}
    {topN : Option Int} {mapId : Int} {t t' : Table CorridorRow.slot} {n : Nat × Nat}
    (h : buildRouteCorridorsForMap order reads accepted version topN mapId t = .ok (t', n)) :
    ∃ rows, CurrentRows order reads version topN mapId rows ∧ (rows = [] → t' = t) ∧
      (rows ≠ [] → storedCorridors t' mapId version = rows) := by
  unfold buildRouteCorridorsForMap at h
  obtain ⟨intervals, henum, h⟩ := bind_eq_ok.mp h
  by_cases hempty : intervals.isEmpty
  · rw [if_pos hempty] at h
    obtain ⟨rfl, -⟩ := Prod.mk.inj (Except.ok.inj h)
    refine ⟨[], currentRows_of_ok henum (if_pos hempty), fun _ => rfl, fun hne => ?_⟩
    exact absurd rfl hne
  · rw [if_neg hempty] at h
    obtain ⟨rows, hrows, h⟩ := bind_eq_ok.mp h
    have hcurrent : CurrentRows order reads version topN mapId rows :=
      currentRows_of_ok henum ((if_neg hempty).trans hrows)
    by_cases hnil : rows = []
    · rw [if_pos hnil] at h
      obtain ⟨rfl, -⟩ := Prod.mk.inj (Except.ok.inj h)
      exact ⟨rows, hcurrent, fun _ => rfl, fun hne => absurd hnil hne⟩
    · rw [if_neg hnil] at h
      obtain ⟨t₁, hins, h⟩ := bind_eq_ok.mp h
      obtain ⟨rfl, -⟩ := Prod.mk.inj (Except.ok.inj h)
      refine ⟨rows, hcurrent, fun he => absurd he hnil, fun _ => ?_⟩
      exact filter_replaced (fun r hr => decide_eq_true (hcurrent.key r hr)) hins

end

/-! ## Edge evidence -/

theorem evidenceRows_nil (version : String) (mapId : Int) : evidenceRows [] version mapId = [] :=
  rfl

/-- The rows carry the key of the run. -/
theorem evidenceRows_key {placements : List GridPlacement} {version : String} {mapId : Int} :
    ∀ r ∈ evidenceRows placements version mapId,
      r.mapId = mapId ∧ r.classificationVersion = version := by
  have hstep : ∀ (turns : List ((Cell × Int × String × FamilyBucket) ×
      (Cell × Int × String × FamilyBucket)))
      (s : Finset (Int × Int) × List EvidenceRow × StateCounts),
      (∀ r ∈ s.2.1, r.mapId = mapId ∧ r.classificationVersion = version) →
      ∀ r ∈ (turns.foldl (rowStep version mapId) s).2.1,
        r.mapId = mapId ∧ r.classificationVersion = version := by
    intro turns
    induction turns with
    | nil => exact fun _ hs => hs
    | cons e turns ih =>
      intro s hs
      refine ih _ ?_
      unfold rowStep
      split
      · exact hs
      · unfold seenStep
        split
        · exact hs
        · intro r hr
          rcases List.mem_append.mp hr with hr | hr
          · exact hs r hr
          · rw [List.mem_singleton.mp hr]
            exact ⟨rfl, rfl⟩
  exact hstep _ _ (by simp)

theorem buildMapEvidence_ok {gridPlacements : Except String (List GridPlacement)}
    {accepted : Except String Unit} {version : String} {mapId : Int}
    {t t' : Table StoredEvidence.slot} {counts : StateCounts}
    (h : buildMapEvidence gridPlacements accepted version mapId t = .ok (t', counts)) :
    ∃ placements, gridPlacements = .ok placements ∧ (placements = [] → t' = t) ∧
      (placements ≠ [] → storedEvidence t' mapId version =
        (evidenceRows placements version mapId).map EvidenceRow.stored) := by
  unfold buildMapEvidence at h
  obtain ⟨placements, hplacements, h⟩ := bind_eq_ok.mp h
  refine ⟨placements, hplacements, ?_⟩
  by_cases hnil : placements = []
  · rw [if_pos hnil] at h
    obtain ⟨rfl, -⟩ := Prod.mk.inj (Except.ok.inj h)
    exact ⟨fun _ => rfl, fun hne => absurd hnil hne⟩
  · rw [if_neg hnil] at h
    obtain ⟨t₁, hins, h⟩ := bind_eq_ok.mp h
    obtain ⟨rfl, -⟩ := Prod.mk.inj (Except.ok.inj h)
    refine ⟨fun he => absurd he hnil, fun _ => filter_replaced (fun r hr => ?_) hins⟩
    obtain ⟨e, he, rfl⟩ := List.mem_map.mp hr
    exact decide_eq_true (evidenceRows_key e he)

/-! ## When a re-run is an exact replacement -/

/-- The builder of the corridors leaves exactly the current rows when there is a path to write, or
    no row of an earlier run; the builder of the evidence when there is a placement, or no such
    row. -/
theorem replaced_iff {φ : Type} [FloatOps φ] (order : SetOrder) (reads : MapReads φ)
    (gridPlacements : Except String (List GridPlacement)) (accepted : Except String Unit)
    (version : String) (topN : Option Int) (mapId : Int) :
    (∀ (t t' : Table CorridorRow.slot) (n : Nat × Nat),
      buildRouteCorridorsForMap order reads accepted version topN mapId t = .ok (t', n) →
      ∃ rows, CurrentRows order reads version topN mapId rows ∧
        (storedCorridors t' mapId version = rows ↔
          HasPath order reads mapId ∨ storedCorridors t mapId version = [])) ∧
    (∀ (t t' : Table StoredEvidence.slot) (counts : StateCounts),
      buildMapEvidence gridPlacements accepted version mapId t = .ok (t', counts) →
      ∃ placements, gridPlacements = .ok placements ∧
        (storedEvidence t' mapId version =
            (evidenceRows placements version mapId).map EvidenceRow.stored ↔
          placements ≠ [] ∨ storedEvidence t mapId version = [])) := by
  constructor
  · intro t t' n h
    obtain ⟨rows, hcurrent, hnone, hsome⟩ := buildRouteCorridors_ok h
    refine ⟨rows, hcurrent, ?_⟩
    by_cases hnil : rows = []
    · have hpath := hcurrent.empty_iff.mp hnil
      rw [hnone hnil, hnil]
      constructor
      · exact Or.inr
      · exact fun hor => hor.resolve_left hpath
    · have hpath : HasPath order reads mapId := by
        by_contra hno
        exact hnil (hcurrent.empty_iff.mpr hno)
      exact ⟨fun _ => Or.inl hpath, fun _ => hsome hnil⟩
  · intro t t' counts h
    obtain ⟨placements, hread, hnone, hsome⟩ := buildMapEvidence_ok h
    refine ⟨placements, hread, ?_⟩
    by_cases hnil : placements = []
    · rw [hnone hnil, hnil, evidenceRows_nil]
      constructor
      · exact Or.inr
      · exact fun hor => hor.resolve_left (not_not.mpr rfl)
    · exact ⟨fun _ => Or.inl hnil, fun _ => hsome hnil⟩

/-! ## A map with a path, and a map without -/

/-- A spawn next to a goal. -/
def shortReads : MapReads Int where
  gridBlocks := .ok [(⟨0, 0, 0⟩, "Road"), (⟨1, 0, 0⟩, "Road")]
  waypoints := .ok [⟨some "Spawn", 0, some 0, some 0, some 0⟩,
    ⟨some "Goal", 0, some 1, some 0, some 0⟩]
  freeWaypoints := .ok []
  cleanReplays := .ok []
  sidecar := fun _ => .unreadable

/-- The corridor of `shortReads`. -/
def shortCorridors : Table CorridorRow.slot :=
  ⟨[⟨7, "Spawn", 0, "Goal", 0, 0, "[[0,0,0],[1,0,0]]", 2, 0, "0.1.0"⟩], by decide⟩

/-- A corridor stored by an earlier run. -/
def oldCorridors : Table CorridorRow.slot :=
  ⟨[⟨7, "Spawn", 0, "Goal", 0, 0, "[[5,0,0],[6,0,0]]", 2, 0, "0.1.0"⟩], by decide⟩

/-- The evidence of `layeredPlacements`. -/
def layeredEvidence : Table StoredEvidence.slot :=
  ⟨[⟨⟨7, 12, 13, .seedValid, 1, "0.1.0"⟩, 0, 0⟩], by decide⟩

/-- Evidence stored by an earlier run. -/
def oldEvidence : Table StoredEvidence.slot :=
  ⟨[⟨⟨7, 3, 4, .seedValid, 1, "0.1.0"⟩, 5, 7⟩], by decide⟩

theorem replaced_iff_short :
    (∃ rows, CurrentRows sortedOrder shortReads classificationVersion (some 100) 7 rows ∧
      (storedCorridors shortCorridors 7 classificationVersion = rows ↔
        HasPath sortedOrder shortReads 7 ∨
          storedCorridors oldCorridors 7 classificationVersion = [])) ∧
    (∃ placements, (Except.ok layeredPlacements : Except String _) = .ok placements ∧
      (storedEvidence layeredEvidence 7 classificationVersion =
          (evidenceRows placements classificationVersion 7).map EvidenceRow.stored ↔
        placements ≠ [] ∨ storedEvidence oldEvidence 7 classificationVersion = [])) := by
  have h := replaced_iff sortedOrder shortReads (.ok layeredPlacements) (.ok ())
    classificationVersion (some 100) 7
  exact ⟨h.1 oldCorridors shortCorridors (1, 1) (by decide),
    h.2 oldEvidence layeredEvidence ⟨1, 0, 0⟩ (by decide)⟩

/-- The map lost its placements: both builders return without an exception, and the rows of the
    earlier run stay although the current enumeration and placements have none. -/
theorem stale_rows_stay :
    buildRouteCorridorsForMap sortedOrder emptyReads (.ok ()) classificationVersion (some 100) 7
        oldCorridors = .ok (oldCorridors, 0, 0) ∧
      currentCorridors sortedOrder emptyReads classificationVersion (some 100) 7 = .ok [] ∧
      storedCorridors oldCorridors 7 classificationVersion ≠ [] ∧
      buildMapEvidence (.ok []) (.ok ()) classificationVersion 7 oldEvidence =
        .ok (oldEvidence, StateCounts.zero) ∧
      evidenceRows [] classificationVersion 7 = [] ∧
      storedEvidence oldEvidence 7 classificationVersion ≠ [] := by
  refine ⟨rfl, rfl, by decide, rfl, rfl, by decide⟩

end TraxMania.Corridor
