import TraxMania.Corridor.Replacement

/-
  The two updates of signal columns of the evidence table: how often the enumerated paths cross an
  edge (`update_path_support_for_map`), and how many non-drivable cells lie around it
  (`update_negative_evidence_for_map`).

  Rows that an update writes have the current value; the others keep what they had, and their
  current value is 0.
-/

namespace TraxMania.Corridor

open TraxMania.Grid Lib Lib.Outcome

/-! ## The UPDATE statements -/

/-- A signal column. -/
inductive Signal
  | pathSupport
  | negativeEvidence
deriving DecidableEq

namespace Signal

def get : Signal → StoredEvidence → Int
  | pathSupport, r => r.pathSupportCount
  | negativeEvidence, r => r.negativeEvidenceCount

def set : Signal → Int → StoredEvidence → StoredEvidence
  | pathSupport, count, r => { r with pathSupportCount := count }
  | negativeEvidence, count, r => { r with negativeEvidenceCount := count }

@[simp] theorem get_set (s : Signal) (count : Int) (r : StoredEvidence) :
    s.get (s.set count r) = count := by
  cases s
  · rfl
  · rfl

@[simp] theorem edge_set (s : Signal) (count : Int) (r : StoredEvidence) :
    (s.set count r).edge = r.edge := by
  cases s
  · rfl
  · rfl

theorem slot_set (s : Signal) (count : Int) (r : StoredEvidence) :
    (s.set count r).slot = r.slot := by
  unfold StoredEvidence.slot
  rw [edge_set]

end Signal

/-- The two placements of a row. -/
def StoredEvidence.ends (r : StoredEvidence) : Int × Int := (r.edge.srcBlockId, r.edge.dstBlockId)

/-- `WHERE map_id = … AND src_block_id = … AND dst_block_id = … AND classification_version = …`. -/
def Hits (mapId : Int) (version : String) (ends : Int × Int) (r : StoredEvidence) : Prop :=
  r.edge.mapId = mapId ∧ r.ends = ends ∧ r.edge.classificationVersion = version

instance (mapId : Int) (version : String) (ends : Int × Int) :
    DecidablePred (Hits mapId version ends) := fun r => by
  unfold Hits
  infer_instance

/-- `_UPDATE_PATH_SUPPORT_SQL`, `_UPDATE_NEGATIVE_EVIDENCE_SQL`. -/
def updateSignal (s : Signal) (mapId : Int) (version : String) (t : Table StoredEvidence.slot)
    (param : (Int × Int) × Int) : Table StoredEvidence.slot :=
  t.update (fun r => decide (Hits mapId version param.1 r)) (s.set param.2) (s.slot_set param.2)

/-- `executemany`. -/
def updateSignals (s : Signal) (mapId : Int) (version : String) (t : Table StoredEvidence.slot)
    (params : List ((Int × Int) × Int)) : Table StoredEvidence.slot :=
  params.foldl (updateSignal s mapId version) t

/-! ## Path support -/

/-- The steps of a path between two placements. -/
def pathSteps (cellToPid : Dict Cell Int) : List Cell → List (Int × Int)
  | a :: b :: path =>
    match cellToPid.get? a, cellToPid.get? b with
    | some pidA, some pidB =>
      if pidA = pidB then pathSteps cellToPid (b :: path)
      else loHi pidA pidB :: pathSteps cellToPid (b :: path)
    | _, _ => pathSteps cellToPid (b :: path)
  | _ => []

/-- The steps of all paths, in the order of the loops. -/
def allSteps (cellToPid : Dict Cell Int) (intervals : List IntervalEnumeration) :
    List (Int × Int) :=
  intervals.flatMap fun iv => iv.paths.flatMap (pathSteps cellToPid)

/-- `edge_counts`. -/
def edgeCountsOf (steps : List (Int × Int)) : Dict (Int × Int) Nat :=
  steps.foldl (fun counts step => counts.upsert step fun old => old.getD 0 + 1) Dict.empty

/-- `update_path_support_for_map(conn, map_id, …)`: the table afterwards, and what it returns. -/
def updatePathSupportForMap {φ : Type} [FloatOps φ] (order : SetOrder) (reads : MapReads φ)
    (gridPlacements : Except String (List GridPlacement)) (accepted : Except String Unit)
    (version : String) (mapId : Int) (t : Table StoredEvidence.slot) :
    Except String (Table StoredEvidence.slot × Nat × Nat × Nat) := do
  let intervals ← enumerateMap order reads mapId
  if intervals.isEmpty then return (t, 0, 0, 0)
  else
    let placements ← gridPlacements
    let edgeCounts := edgeCountsOf (allSteps (cellToPlacementMap placements) intervals)
    let pathCountTotal := (intervals.map fun iv => iv.paths.length).sum
    if edgeCounts.items.isEmpty then return (t, intervals.length, 0, pathCountTotal)
    else
      let _ ← accepted
      return (updateSignals .pathSupport mapId version t
        (edgeCounts.items.map fun item => (item.1, (item.2 : Int))),
        intervals.length, edgeCounts.items.length, pathCountTotal)

/-! ## Negative evidence -/

/-- `cell_bucket`. -/
def cellBucket (placements : List GridPlacement) : Dict Cell FamilyBucket :=
  resolve id (placements.map fun p => (p.cell, classifyFamily p.family))

/-- `pid_to_cell`. -/
def pidToCell (cellToPid : Dict Cell Int) : Dict Int Cell :=
  cellToPid.items.foldl (fun d item => d.upsert item.2 fun _ => item.1) Dict.empty

/-- `_count_non_drivable_neighbors(cell, cell_bucket)`. -/
def countNonDrivableNeighbors (cell : Cell) (bucket : Dict Cell FamilyBucket) : Nat :=
  (axisNeighbors cell).countP fun nb => decide (bucket.get? nb = some .nonDrivable)

/-- `total` of an evidence row, when both its placements are found. -/
def negativeTotal (placements : List GridPlacement) (ends : Int × Int) : Option Nat :=
  let cellOf := pidToCell (cellToPlacementMap placements)
  match cellOf.get? ends.1, cellOf.get? ends.2 with
  | some cellA, some cellB =>
    some (countNonDrivableNeighbors cellA (cellBucket placements) +
      countNonDrivableNeighbors cellB (cellBucket placements))
  | _, _ => none

/-- The parameters of an update: the row is flagged when its total meets the threshold. -/
def flagged (placements : List GridPlacement) (threshold : Int) (ends : Int × Int) :
    Option ((Int × Int) × Int) :=
  match negativeTotal placements ends with
  | some total => if threshold ≤ total then some (ends, (total : Int)) else none
  | none => none

/-- `DECO_CLUSTER_NEIGHBOR_THRESHOLD`. -/
def decoClusterNeighborThreshold : Int := 6

/-- `update_negative_evidence_for_map(conn, map_id, …)`. -/
def updateNegativeEvidenceForMap (gridPlacements : Except String (List GridPlacement))
    (accepted : Except String Unit) (version : String) (threshold : Int) (mapId : Int)
    (t : Table StoredEvidence.slot) : Except String (Table StoredEvidence.slot × Nat × Nat) := do
  let placements ← gridPlacements
  if placements = [] then return (t, 0, 0)
  else
    let edges := (storedEvidence t mapId version).map StoredEvidence.ends
    let updates := edges.filterMap (flagged placements threshold)
    if updates.isEmpty then return (t, edges.length, 0)
    else
      let _ ← accepted
      return (updateSignals .negativeEvidence mapId version t updates, edges.length,
        updates.length)

/-! ## The current values -/

/-- The step from `a` to `b` crosses the edge between the two placements. -/
def crosses (placements : List GridPlacement) (ends : Int × Int) (a b : Cell) : Bool :=
  match winner placements a, winner placements b with
  | some p, some q => decide (p.id ≠ q.id ∧ loHi p.id q.id = ends)
  | _, _ => false

/-- How often a path crosses the edge. -/
def crossings (placements : List GridPlacement) (ends : Int × Int) : List Cell → Nat
  | a :: b :: path =>
    (crosses placements ends a b).toNat + crossings placements ends (b :: path)
  | _ => 0

/-- How often the paths of the enumeration cross the edge. -/
def traversals (placements : List GridPlacement) (intervals : List IntervalEnumeration)
    (ends : Int × Int) : Nat :=
  (intervals.map fun iv => (iv.paths.map (crossings placements ends)).sum).sum

/-- The cell that the placement stands for. -/
def cellOfWinner (placements : List GridPlacement) (pid : Int) : Option Cell :=
  (placements.find? fun p => decide (p.id = pid ∧ winner placements p.cell = some p)).map (·.cell)

/-- The cells next to a cell whose winner is non-drivable. -/
def nonDrivableAround (placements : List GridPlacement) (c : Cell) : Nat :=
  (axisNeighbors c).countP fun nb =>
    decide ((winner placements nb).map (·.bucket) = some .nonDrivable)

/-- The non-drivable cells around both ends; none when an end stands for no cell. -/
def surrounding (placements : List GridPlacement) (ends : Int × Int) : Option Nat :=
  match cellOfWinner placements ends.1, cellOfWinner placements ends.2 with
  | some a, some b => some (nonDrivableAround placements a + nonDrivableAround placements b)
  | _, _ => none

/-- The total around the edge when it meets the threshold, else 0. -/
def negativeEvidence (placements : List GridPlacement) (threshold : Int) (ends : Int × Int) : Int :=
  match surrounding placements ends with
  | some total => if threshold ≤ total then total else 0
  | none => 0

/-- The edge has a total, and it meets the threshold. -/
def MeetsThreshold (placements : List GridPlacement) (threshold : Int) (ends : Int × Int) : Prop :=
  ∃ total ∈ surrounding placements ends, threshold ≤ (total : Int)

/-! ## The updates compute them -/

/-- The steps of a path along an edge are its crossings. -/
theorem count_pathSteps (placements : List GridPlacement) (ends : Int × Int) (path : List Cell) :
    (pathSteps (cellToPlacementMap placements) path).count ends =
      crossings placements ends path := by
  induction path with
  | nil => rfl
  | cons a path ih =>
    cases path with
    | nil => rfl
    | cons b path =>
      unfold pathSteps crossings crosses
      rw [get?_cellToPlacementMap, get?_cellToPlacementMap]
      cases winner placements a with
      | none => simpa using ih
      | some p =>
        cases winner placements b with
        | none => simpa using ih
        | some q =>
          simp only [Option.map_some]
          by_cases hpq : p.id = q.id
          · simpa [hpq] using ih
          · rw [if_neg hpq, List.count_cons, ih]
            by_cases he : loHi p.id q.id = ends
            · simp [hpq, he, Nat.add_comm]
            · simp [he]

theorem count_allSteps (placements : List GridPlacement) (intervals : List IntervalEnumeration)
    (ends : Int × Int) :
    (allSteps (cellToPlacementMap placements) intervals).count ends =
      traversals placements intervals ends := by
  unfold allSteps traversals
  rw [List.count_flatMap]
  congr 1
  refine List.map_congr_left fun iv _ => ?_
  rw [Function.comp_apply, List.count_flatMap]
  congr 1
  exact List.map_congr_left fun path _ => count_pathSteps placements ends path

theorem get?_cellBucket (placements : List GridPlacement) (c : Cell) :
    (cellBucket placements).get? c = (winner placements c).map (·.bucket) := by
  have h := resolve_placements id GridPlacement.bucket (fun _ => rfl) placements
  unfold cellBucket
  rw [show (placements.map fun p => (p.cell, classifyFamily p.family)) =
    placements.map fun p => (p.cell, p.bucket) from rfl, h, Dict.get?_mapVal, get?_winners]

theorem countNonDrivableNeighbors_eq (placements : List GridPlacement) (c : Cell) :
    countNonDrivableNeighbors c (cellBucket placements) = nonDrivableAround placements c := by
  unfold countNonDrivableNeighbors nonDrivableAround
  simp only [get?_cellBucket]

section

variable {placements : List GridPlacement} (hids : (placements.map (·.id)).Nodup)

include hids

/-- `pid_to_cell` knows the winners by their ids. -/
theorem get?_pidToCell (pid : Int) :
    (pidToCell (cellToPlacementMap placements)).get? pid = cellOfWinner placements pid := by
  have hitems : ∀ {c : Cell} {pid : Int}, (c, pid) ∈ (cellToPlacementMap placements).items ↔
      ∃ p, winner placements c = some p ∧ p.id = pid := by
    intro c pid
    rw [cellToPlacementMap_eq]
    show (c, pid) ∈ (winners placements).items.map _ ↔ _
    rw [List.mem_map]
    constructor
    · rintro ⟨⟨c', p⟩, hp, he⟩
      obtain ⟨rfl, rfl⟩ := Prod.mk.inj he
      exact ⟨p, mem_winners.mp hp, rfl⟩
    · rintro ⟨p, hp, rfl⟩
      exact ⟨(c, p), mem_winners.mpr hp, rfl⟩
  have hinj : ∀ a ∈ (cellToPlacementMap placements).items,
      ∀ b ∈ (cellToPlacementMap placements).items, a.2 = b.2 → a.1 = b.1 := by
    rintro ⟨c, pid⟩ ha ⟨d, pid'⟩ hb he
    obtain ⟨p, hp, hpid⟩ := hitems.mp ha
    obtain ⟨q, hq, hqid⟩ := hitems.mp hb
    exact winner_id_inj hids hp hq (hpid.trans (he.trans hqid.symm))
  refine Option.ext fun c => ?_
  unfold pidToCell
  rw [Dict.get?_foldl_inverse hinj, hitems]
  unfold cellOfWinner
  rw [Option.map_eq_some_iff]
  constructor
  · rintro ⟨p, hp, rfl⟩
    obtain ⟨hmem, hcell⟩ := winner_mem hp
    cases hfind : placements.find? fun q =>
        decide (q.id = p.id ∧ winner placements q.cell = some q) with
    | none =>
      have h := List.find?_eq_none.mp hfind p hmem
      rw [hcell, hp] at h
      simp at h
    | some q =>
      have hq : q.id = p.id ∧ winner placements q.cell = some q := by
        simpa using List.find?_some hfind
      have hqp : q = p :=
        List.inj_on_of_nodup_map hids (List.mem_of_find?_eq_some hfind) hmem hq.1
      exact ⟨q, rfl, by rw [hqp, hcell]⟩
  · rintro ⟨q, hfind, rfl⟩
    have hq : q.id = pid ∧ winner placements q.cell = some q := by
      simpa using List.find?_some hfind
    exact ⟨q, hq.2, hq.1⟩

theorem negativeTotal_eq (ends : Int × Int) :
    negativeTotal placements ends = surrounding placements ends := by
  unfold negativeTotal surrounding
  dsimp only
  rw [get?_pidToCell hids, get?_pidToCell hids]
  cases cellOfWinner placements ends.1 with
  | none => rfl
  | some a =>
    cases cellOfWinner placements ends.2 with
    | none => rfl
    | some b =>
      show some (_ + _) = some (_ + _)
      rw [countNonDrivableNeighbors_eq, countNonDrivableNeighbors_eq]

theorem flagged_eq_some {threshold : Int} {ends : Int × Int} {param : (Int × Int) × Int} :
    flagged placements threshold ends = some param ↔
      MeetsThreshold placements threshold ends ∧
        param = (ends, negativeEvidence placements threshold ends) := by
  unfold flagged MeetsThreshold negativeEvidence
  rw [negativeTotal_eq hids]
  cases surrounding placements ends with
  | none => simp
  | some total =>
    by_cases hle : threshold ≤ (total : Int)
    · simp [hle, eq_comm]
    · simp [hle]

end

theorem negativeEvidence_eq_zero {placements : List GridPlacement} {threshold : Int}
    {ends : Int × Int} (h : ¬ MeetsThreshold placements threshold ends) :
    negativeEvidence placements threshold ends = 0 := by
  unfold MeetsThreshold at h
  unfold negativeEvidence
  cases hs : surrounding placements ends with
  | none => rfl
  | some total =>
    rw [hs] at h
    simp only
    exact if_neg fun hle => h ⟨total, rfl, hle⟩

/-! ## What an update leaves -/

/-- A row after all statements. -/
def updateRow (s : Signal) (mapId : Int) (version : String) (r : StoredEvidence)
    (params : List ((Int × Int) × Int)) : StoredEvidence :=
  params.foldl (fun r param => if Hits mapId version param.1 r then s.set param.2 r else r) r

theorem rows_updateSignals (s : Signal) (mapId : Int) (version : String)
    (params : List ((Int × Int) × Int)) (t : Table StoredEvidence.slot) :
    (updateSignals s mapId version t params).rows =
      t.rows.map fun r => updateRow s mapId version r params := by
  unfold updateSignals updateRow
  induction params generalizing t with
  | nil => exact (List.map_id t.rows).symm
  | cons param params ih =>
    rw [List.foldl_cons, ih]
    unfold updateSignal
    rw [Table.update_rows, List.map_map]
    refine List.map_congr_left fun r _ => ?_
    simp only [Function.comp_apply, decide_eq_true_eq, List.foldl_cons]

theorem edge_updateRow (s : Signal) (mapId : Int) (version : String) (r : StoredEvidence)
    (params : List ((Int × Int) × Int)) : (updateRow s mapId version r params).edge = r.edge := by
  unfold updateRow
  induction params generalizing r with
  | nil => rfl
  | cons param params ih =>
    rw [List.foldl_cons, ih]
    split
    · exact s.edge_set param.2 r
    · rfl

/-- A row of the key takes the value of the statements that name it, or keeps its own. -/
theorem get_updateRow (s : Signal) {mapId : Int} {version : String} {r : StoredEvidence}
    (hmap : r.edge.mapId = mapId) (hversion : r.edge.classificationVersion = version)
    {params : List ((Int × Int) × Int)} {value : Int}
    (hvalue : ∀ param ∈ params, param.1 = r.ends → param.2 = value) :
    s.get (updateRow s mapId version r params) =
      if r.ends ∈ params.map Prod.fst then value else s.get r := by
  induction params using List.reverseRecOn with
  | nil => rfl
  | append_singleton params param ih =>
    have hedge := edge_updateRow s mapId version r params
    have hends : (updateRow s mapId version r params).ends = r.ends := by
      unfold StoredEvidence.ends
      rw [hedge]
    have hrest := ih fun p hp => hvalue p (List.mem_append_left _ hp)
    have hlast : updateRow s mapId version r (params ++ [param]) =
        if Hits mapId version param.1 (updateRow s mapId version r params) then
          s.set param.2 (updateRow s mapId version r params)
        else updateRow s mapId version r params := by
      unfold updateRow
      rw [List.foldl_append]
      rfl
    have hhits : Hits mapId version param.1 (updateRow s mapId version r params) ↔
        r.ends = param.1 := by
      unfold Hits
      rw [hedge, hends]
      exact ⟨fun h => h.2.1, fun h => ⟨hmap, h, hversion⟩⟩
    rw [hlast, List.map_append, List.map_singleton]
    by_cases he : r.ends = param.1
    · have hmem : r.ends ∈ params.map Prod.fst ++ [param.1] := by simp [he]
      rw [if_pos (hhits.mpr he), if_pos hmem, Signal.get_set]
      exact hvalue param (by simp) he.symm
    · have hmem : r.ends ∈ params.map Prod.fst ++ [param.1] ↔ r.ends ∈ params.map Prod.fst := by
        simp [he]
      rw [if_neg fun h => he (hhits.mp h), hrest]
      simp only [hmem]

/-- Statements that write `current` wherever it is not 0 leave the current values exactly when the
    rows they do not name are at 0. -/
theorem current_iff (s : Signal) (mapId : Int) (version : String) (t : Table StoredEvidence.slot)
    {params : List ((Int × Int) × Int)} (current : Int × Int → Int) (Written : Int × Int → Prop)
    (hvalue : ∀ param ∈ params, param.2 = current param.1)
    (hnamed : ∀ r ∈ storedEvidence t mapId version,
      r.ends ∈ params.map Prod.fst ↔ Written r.ends)
    (hzero : ∀ ends, ¬ Written ends → current ends = 0) :
    (∀ r ∈ storedEvidence (updateSignals s mapId version t params) mapId version,
        s.get r = current r.ends) ↔
      ∀ r ∈ storedEvidence t mapId version, ¬ Written r.ends → s.get r = 0 := by
  have hstored : storedEvidence (updateSignals s mapId version t params) mapId version =
      (storedEvidence t mapId version).map fun r => updateRow s mapId version r params := by
    unfold storedEvidence
    rw [rows_updateSignals, List.filter_map]
    congr 1
    refine List.filter_congr fun r _ => ?_
    rw [Function.comp_apply, edge_updateRow]
  have hrow : ∀ r ∈ storedEvidence t mapId version,
      (s.get (updateRow s mapId version r params) =
        current (updateRow s mapId version r params).ends ↔ (¬ Written r.ends → s.get r = 0)) := by
    intro r hr
    obtain ⟨hmap, hversion⟩ := of_decide_eq_true (List.mem_filter.mp hr).2
    have hends : (updateRow s mapId version r params).ends = r.ends := by
      unfold StoredEvidence.ends
      rw [edge_updateRow]
    have hsame : ∀ param ∈ params, param.1 = r.ends → param.2 = current r.ends :=
      fun param hparam he => (hvalue param hparam).trans (by rw [he])
    have hget := get_updateRow s hmap hversion hsame
    rw [hends, hget]
    by_cases hw : Written r.ends
    · rw [if_pos ((hnamed r hr).mpr hw)]
      exact ⟨fun _ h => absurd hw h, fun _ => rfl⟩
    · rw [if_neg fun h => hw ((hnamed r hr).mp h), hzero _ hw]
      exact ⟨fun h _ => h, fun h => h hw⟩
  rw [hstored, List.forall_mem_map]
  exact forall₂_congr hrow

/-! ## When the stored signals are current -/

/-- `edge_counts` as statements: each edge with its count, and only those that are crossed. -/
theorem mem_edgeCounts {steps : List (Int × Int)} {ends : Int × Int} {n : Nat} :
    (ends, n) ∈ (edgeCountsOf steps).items ↔ ends ∈ steps ∧ n = steps.count ends := by
  have hget : (edgeCountsOf steps).get? ends =
      if ends ∈ steps then some (steps.count ends) else none := Dict.get?_foldl_count ends
  constructor
  · intro h
    have hsome := hget.symm.trans (Dict.get?_eq_some h)
    split at hsome
    · next hmem => exact ⟨hmem, (Option.some.inj hsome).symm⟩
    · cases hsome
  · rintro ⟨hmem, rfl⟩
    rw [if_pos hmem] at hget
    exact Dict.mem_items_of_get? hget

/-- The statements of a path-support update write the traversals, -/
theorem pathSupport_value {placements : List GridPlacement} (intervals : List IntervalEnumeration) :
    ∀ param ∈ (edgeCountsOf (allSteps (cellToPlacementMap placements) intervals)).items.map
      (fun item => (item.1, (item.2 : Int))),
      param.2 = (traversals placements intervals param.1 : Int) := by
  intro param hparam
  obtain ⟨⟨ends, n⟩, hitem, rfl⟩ := List.mem_map.mp hparam
  obtain ⟨-, rfl⟩ := mem_edgeCounts.mp hitem
  rw [count_allSteps]

/-- and name the edges with one. -/
theorem pathSupport_named {placements : List GridPlacement} (intervals : List IntervalEnumeration)
    (ends : Int × Int) :
    ends ∈ ((edgeCountsOf (allSteps (cellToPlacementMap placements) intervals)).items.map
      fun item => (item.1, (item.2 : Int))).map Prod.fst ↔
      traversals placements intervals ends ≠ 0 := by
  rw [List.map_map, List.mem_map, ← count_allSteps, ne_eq, List.count_eq_zero, not_not]
  constructor
  · rintro ⟨⟨ends', n⟩, hitem, rfl⟩
    exact (mem_edgeCounts.mp hitem).1
  · intro hmem
    exact ⟨(ends, _), mem_edgeCounts.mpr ⟨hmem, rfl⟩, rfl⟩

section

variable {φ : Type} [FloatOps φ] {order : SetOrder} {reads : MapReads φ}
  {placements : List GridPlacement} {accepted : Except String Unit} {version : String}
  {mapId : Int} {t t' : Table StoredEvidence.slot}

/-- A path-support update that returns wrote the counts of the crossed edges. -/
theorem updatePathSupport_ok {n : Nat × Nat × Nat}
    (h : updatePathSupportForMap order reads (.ok placements) accepted version mapId t =
      .ok (t', n)) :
    ∃ intervals, enumerateMap order reads mapId = .ok intervals ∧
      t' = updateSignals .pathSupport mapId version t
        ((edgeCountsOf (allSteps (cellToPlacementMap placements) intervals)).items.map
          fun item => (item.1, (item.2 : Int))) := by
  unfold updatePathSupportForMap at h
  obtain ⟨intervals, henum, h⟩ := bind_eq_ok.mp h
  refine ⟨intervals, henum, ?_⟩
  by_cases hempty : intervals.isEmpty
  · rw [if_pos hempty] at h
    obtain ⟨rfl, -⟩ := Prod.mk.inj (Except.ok.inj h)
    rw [List.isEmpty_iff.mp hempty]
    rfl
  · rw [if_neg hempty, ok_bind] at h
    dsimp only at h
    split at h
    · next hnone =>
      obtain ⟨rfl, -⟩ := Prod.mk.inj (Except.ok.inj h)
      rw [List.isEmpty_iff.mp hnone]
      rfl
    · obtain ⟨-, -, h⟩ := bind_eq_ok.mp h
      obtain ⟨rfl, -⟩ := Prod.mk.inj (Except.ok.inj h)
      rfl

/-- A negative-evidence update that returns wrote the totals of the flagged rows. -/
theorem updateNegativeEvidence_ok {threshold : Int} {n : Nat × Nat}
    (h : updateNegativeEvidenceForMap (.ok placements) accepted version threshold mapId t =
      .ok (t', n)) :
    t' = updateSignals .negativeEvidence mapId version t
      (((storedEvidence t mapId version).map StoredEvidence.ends).filterMap
        (flagged placements threshold)) := by
  unfold updateNegativeEvidenceForMap at h
  change (if placements = [] then _ else _) = _ at h
  by_cases hnil : placements = []
  · rw [if_pos hnil] at h
    obtain ⟨rfl, -⟩ := Prod.mk.inj (Except.ok.inj h)
    have hnone : ((storedEvidence t mapId version).map StoredEvidence.ends).filterMap
        (flagged placements threshold) = [] := by
      rw [List.filterMap_eq_nil_iff, hnil]
      exact fun ends _ => rfl
    rw [hnone]
    rfl
  · rw [if_neg hnil] at h
    change (if (List.filterMap _ _).isEmpty then _ else _) = _ at h
    split at h
    · next hnone =>
      obtain ⟨rfl, -⟩ := Prod.mk.inj (Except.ok.inj h)
      rw [List.isEmpty_iff.mp hnone]
      rfl
    · obtain ⟨-, -, h⟩ := bind_eq_ok.mp h
      obtain ⟨rfl, -⟩ := Prod.mk.inj (Except.ok.inj h)
      rfl

variable (order) (reads) (accepted) in
/-- The signals are current after an update exactly when every row of the map that the update
    does not write was at 0: rows whose edge no path crosses, and rows whose total misses the
    threshold. -/
theorem signals_current_iff (hids : (placements.map (·.id)).Nodup) :
    (∀ n : Nat × Nat × Nat,
      updatePathSupportForMap order reads (.ok placements) accepted version mapId t =
        .ok (t', n) →
      ∃ intervals, enumerateMap order reads mapId = .ok intervals ∧
        ((∀ r ∈ storedEvidence t' mapId version,
            r.pathSupportCount = traversals placements intervals r.ends) ↔
          ∀ r ∈ storedEvidence t mapId version,
            traversals placements intervals r.ends = 0 → r.pathSupportCount = 0)) ∧
    (∀ (threshold : Int) (n : Nat × Nat),
      updateNegativeEvidenceForMap (.ok placements) accepted version threshold mapId t =
        .ok (t', n) →
      ((∀ r ∈ storedEvidence t' mapId version,
          r.negativeEvidenceCount = negativeEvidence placements threshold r.ends) ↔
        ∀ r ∈ storedEvidence t mapId version,
          ¬ MeetsThreshold placements threshold r.ends → r.negativeEvidenceCount = 0)) := by
  constructor
  · intro n h
    obtain ⟨intervals, henum, rfl⟩ := updatePathSupport_ok h
    refine ⟨intervals, henum, ?_⟩
    have hiff := current_iff .pathSupport mapId version t
      (fun ends => (traversals placements intervals ends : Int))
      (fun ends => traversals placements intervals ends ≠ 0)
      (pathSupport_value intervals) (fun r _ => pathSupport_named intervals r.ends)
      (fun ends hw => by rw [not_not.mp hw]; rfl)
    simp only [not_not] at hiff
    exact hiff
  · intro threshold n h
    obtain rfl := updateNegativeEvidence_ok h
    refine current_iff .negativeEvidence mapId version t (negativeEvidence placements threshold)
      (MeetsThreshold placements threshold) (fun param hparam => ?_) (fun r hr => ?_)
      fun _ => negativeEvidence_eq_zero
    · obtain ⟨ends, -, hflag⟩ := List.mem_filterMap.mp hparam
      obtain ⟨-, rfl⟩ := (flagged_eq_some hids).mp hflag
      rfl
    · rw [List.mem_map]
      constructor
      · rintro ⟨param, hparam, hends⟩
        obtain ⟨ends, -, hflag⟩ := List.mem_filterMap.mp hparam
        obtain ⟨hmeets, rfl⟩ := (flagged_eq_some hids).mp hflag
        rwa [← hends]
      · intro hmeets
        refine ⟨(r.ends, negativeEvidence placements threshold r.ends), ?_, rfl⟩
        refine List.mem_filterMap.mpr ⟨r.ends, List.mem_map.mpr ⟨r, hr, rfl⟩, ?_⟩
        exact (flagged_eq_some hids).mpr ⟨hmeets, rfl⟩

end

/-! ## A run over stored signals -/

/-- The placements of `shortReads`, with a piece of decoration above each road. -/
def shortPlacements : List GridPlacement :=
  [⟨1, ⟨0, 0, 0⟩, "Road"⟩, ⟨2, ⟨1, 0, 0⟩, "Road"⟩, ⟨3, ⟨0, 1, 0⟩, "Deco"⟩, ⟨4, ⟨1, 1, 0⟩, "Deco"⟩]

/-- The edge between the roads, with signals of an earlier run. -/
def shortEvidence (pathSupport negative : Int) : Table StoredEvidence.slot :=
  ⟨[⟨⟨7, 1, 2, .seedValid, 1, "0.1.0"⟩, pathSupport, negative⟩], by simp⟩

theorem signals_current_short :
    (∃ intervals, enumerateMap sortedOrder shortReads 7 = .ok intervals ∧
      ((∀ r ∈ storedEvidence (shortEvidence 1 7) 7 classificationVersion,
          r.pathSupportCount = traversals shortPlacements intervals r.ends) ↔
        ∀ r ∈ storedEvidence (shortEvidence 5 7) 7 classificationVersion,
          traversals shortPlacements intervals r.ends = 0 → r.pathSupportCount = 0)) ∧
    ((∀ r ∈ storedEvidence (shortEvidence 5 2) 7 classificationVersion,
        r.negativeEvidenceCount = negativeEvidence shortPlacements 2 r.ends) ↔
      ∀ r ∈ storedEvidence (shortEvidence 5 7) 7 classificationVersion,
        ¬ MeetsThreshold shortPlacements 2 r.ends → r.negativeEvidenceCount = 0) := by
  refine ⟨?_, ?_⟩
  · exact (signals_current_iff sortedOrder shortReads (.ok ()) (by decide)).1 (1, 1, 1) (by decide)
  · exact (signals_current_iff sortedOrder shortReads (.ok ()) (by decide)).2 2 (1, 1) (by decide)

/-- The map lost its placements: both updates return without an exception and write nothing, so the
    signals of the earlier run stay, where the current values are 0. -/
theorem earlier_signals_stay :
    updatePathSupportForMap sortedOrder emptyReads (.ok []) (.ok ()) classificationVersion 7
        oldEvidence = .ok (oldEvidence, 0, 0, 0) ∧
      enumerateMap sortedOrder emptyReads 7 = .ok [] ∧
      (¬ ∀ r ∈ storedEvidence oldEvidence 7 classificationVersion,
        r.pathSupportCount = traversals [] [] r.ends) ∧
      updateNegativeEvidenceForMap (.ok []) (.ok ()) classificationVersion
        decoClusterNeighborThreshold 7 oldEvidence = .ok (oldEvidence, 0, 0) ∧
      ¬ ∀ r ∈ storedEvidence oldEvidence 7 classificationVersion,
        r.negativeEvidenceCount = negativeEvidence [] decoClusterNeighborThreshold r.ends := by
  refine ⟨rfl, rfl, by decide, rfl, by decide⟩

end TraxMania.Corridor
