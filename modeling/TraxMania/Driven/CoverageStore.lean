import TraxMania.Driven.Coverage
import TraxMania.Lib.Table
import TraxMania.Lib.Transition

/-
  `replay_telemetry_coverage` and `replay_terrain_cells`. A coverage row is keyed by everything
  that can move a number; the terrain cells are keyed by the replay and the matcher version only,
  and every call replaces them. Two rows of one replay so share one set of cells, and the older
  row keeps its own only where the newer result has the same.
-/

namespace TraxMania.Driven.Coverage

open TraxMania.Grid Lib Lib.Transition

/-! ## The tables -/

/-- `MATCHER_VERSION`. -/
def matcherVersion : String := "block_matcher-0.3"
/-- `AIRBORNE_METHOD`. -/
def airborneMethod : String := "ballistic_vertical_accel"
/-- `AIRBORNE_METHOD_VERSION`. -/
def airborneMethodVersion : String := "g=-24.0,tol=8.0"

/-- `uq_rtc_run`. -/
structure CoverageKey where
  replayId : Nat
  matcherVersion : String
  matcherParametersHash : String
  telemetryHash : String
  itemIngestionVersion : String
deriving DecidableEq

/-- A `replay_telemetry_coverage` row. -/
structure CoverageRow (σ : Type) where
  key : CoverageKey
  airborneMethod : String
  airborneMethodVersion : String
  metrics : Metrics σ
  createdByVersion : String
deriving DecidableEq

/-- A `replay_terrain_cells` row. -/
structure TerrainRow (σ : Type) where
  replayId : Nat
  matcherVersion : String
  cell : Cell
  data : TerrainCell σ
  createdByVersion : String
deriving DecidableEq

/-- `uq_rtcells`. -/
def TerrainRow.key {σ : Type} (t : TerrainRow σ) : Nat × String × Cell :=
  (t.replayId, t.matcherVersion, t.cell)

structure CoverageDb (σ : Type) where
  coverage : Table (CoverageRow.key (σ := σ))
  terrain : Table (TerrainRow.key (σ := σ))

/-! ## persist -/

/-- The arguments of a call. -/
structure PersistCall (σ : Type) where
  replayId : Nat
  result : CoverageResult σ
  telemetryHash : String
  /-- `parameters_hash(params)`. -/
  parametersHash : String
  itemIngestionVersion : String
  version : String

section Persist

variable {σ : Type} (c : PersistCall σ) (db : CoverageDb σ)

/-- The key under which the call writes. -/
def PersistCall.key : CoverageKey :=
  ⟨c.replayId, Coverage.matcherVersion, c.parametersHash, c.telemetryHash, c.itemIngestionVersion⟩

/-- The row that the call inserts. -/
def PersistCall.row : CoverageRow σ :=
  ⟨c.key, Coverage.airborneMethod, Coverage.airborneMethodVersion, c.result.metrics, c.version⟩

/-- `rows`. -/
def PersistCall.terrainRows : List (TerrainRow σ) :=
  c.result.terrainCells.items.map fun kv =>
    ⟨c.replayId, Coverage.matcherVersion, kv.1, kv.2, c.version⟩

/-- `ON DUPLICATE KEY UPDATE`: the measured columns. -/
def CoverageRow.remeasure (metrics : Metrics σ) (r : CoverageRow σ) : CoverageRow σ :=
  { r with metrics := metrics }

/-- The row of a terrain cell belongs to the replay under the matcher version. -/
def TerrainRow.ofReplay (replayId : Nat) (version : String) (t : TerrainRow σ) : Bool :=
  t.replayId = replayId && t.matcherVersion = version

/-- `persist`; `none` when a statement is refused, and nothing is committed. -/
def persist : Option (CoverageDb σ) := do
  let coverage := db.coverage.upsert c.row (CoverageRow.remeasure c.result.metrics) fun _ => rfl
  let kept := db.terrain.delete (TerrainRow.ofReplay c.replayId Coverage.matcherVersion)
  let terrain ← Table.insertAll c.terrainRows kept
  return ⟨coverage, terrain⟩

/-- The tables after a call. -/
def persistStep (db : CoverageDb σ) (c : PersistCall σ) : CoverageDb σ := (persist c db).getD db

end Persist

/-! ## What belongs to a row -/

section Cells

variable {σ : Type}

/-- The terrain cells that are stored for a replay and a matcher version. -/
def cellsOf (db : CoverageDb σ) (replayId : Nat) (version : String) : List (Cell × TerrainCell σ) :=
  (db.terrain.rows.filter (TerrainRow.ofReplay replayId version)).map fun t => (t.cell, t.data)

/-- The terrain cells that belong to a coverage row. -/
def CoverageRow.cells (db : CoverageDb σ) (row : CoverageRow σ) : List (Cell × TerrainCell σ) :=
  cellsOf db row.key.replayId row.key.matcherVersion

/-- For every stored row the terrain cells sum to its `terrain_ground_samples`. -/
def SumsMatch (db : CoverageDb σ) : Prop :=
  ∀ row ∈ db.coverage.rows, samplesIn (row.cells db) = row.metrics.terrainGroundSamples

/-- From `db` to `db'` the rows of other keys, and the terrain cells that belong to them, stay. -/
structure Undisturbed (key : CoverageKey) (db db' : CoverageDb σ) : Prop where
  rows : ∀ row ∈ db.coverage.rows, row.key ≠ key → row ∈ db'.coverage.rows
  cells : ∀ row ∈ db.coverage.rows, row.key ≠ key → ∀ kv ∈ row.cells db, kv ∈ row.cells db'
  sums : SumsMatch db'

/-- The call's replay has no row of another key, or its terrain cells are those that are stored. -/
def SharesCells (db : CoverageDb σ) (c : PersistCall σ) : Prop :=
  ∀ row ∈ db.coverage.rows, row.key ≠ c.key → row.key.replayId = c.replayId →
    row.key.matcherVersion = Coverage.matcherVersion → (row.cells db).Perm c.result.terrainCells.items

instance [DecidableEq σ] (db : CoverageDb σ) (c : PersistCall σ) : Decidable (SharesCells db c) :=
  inferInstanceAs (Decidable (∀ row ∈ db.coverage.rows, row.key ≠ c.key →
    row.key.replayId = c.replayId → row.key.matcherVersion = Coverage.matcherVersion →
      (row.cells db).Perm c.result.terrainCells.items))

theorem cells_nodup (db : CoverageDb σ) (replayId : Nat) (version : String) :
    (cellsOf db replayId version).Nodup := by
  have hkeys := db.terrain.nodup.sublist
    ((List.filter_sublist (p := TerrainRow.ofReplay replayId version)).map TerrainRow.key)
  unfold cellsOf
  refine (List.Nodup.of_map _ hkeys).map_on fun t ht t' ht' h => ?_
  have hof := (List.mem_filter.mp ht).2
  have hof' := (List.mem_filter.mp ht').2
  simp only [TerrainRow.ofReplay, Bool.and_eq_true, decide_eq_true_eq] at hof hof'
  refine List.inj_on_of_nodup_map hkeys ht ht' ?_
  simp only [TerrainRow.key, hof.1, hof.2, hof'.1, hof'.2, (Prod.mk.inj h).1]

/-- Cells within cells that count as many samples are all of them. -/
theorem perm_of_subset {old new : List (Cell × TerrainCell σ)} (hnodup : old.Nodup)
    (hsub : old ⊆ new) (hpos : ∀ kv ∈ new, 0 < kv.2.sampleCount)
    (hsum : samplesIn old = samplesIn new) : old.Perm new := by
  obtain ⟨l, hl, hsublist⟩ := List.subperm_of_subset hnodup hsub
  obtain ⟨extra, hextra⟩ := hsublist.exists_perm_append
  have hperm : new.Perm (old ++ extra) := hextra.trans (hl.append_right extra)
  have hsplit : samplesIn new = samplesIn old + samplesIn extra := by
    unfold samplesIn
    rw [(hperm.map _).sum_eq, List.map_append, List.sum_append]
  have hnone : extra = [] := by
    cases hx : extra with
    | nil => rfl
    | cons kv rest =>
      have hkv : kv ∈ new := hperm.mem_iff.mpr (by rw [hx]; simp)
      have hone := hpos kv hkv
      rw [hx] at hsplit
      simp only [samplesIn, List.map_cons, List.sum_cons] at hsplit hsum
      omega
  rw [hnone, List.append_nil] at hperm
  exact hperm.symm

end Cells

/-! ## One call -/

section Call

variable {σ : Type} (c : PersistCall σ) (db : CoverageDb σ)

/-- No statement of a call is refused: the cells that are in the way are deleted first. -/
theorem persist_eq : ∃ terrain : Table (TerrainRow.key (σ := σ)),
    terrain.rows = (db.terrain.rows.filter fun t =>
        !TerrainRow.ofReplay c.replayId Coverage.matcherVersion t) ++ c.terrainRows ∧
      persistStep db c = ⟨db.coverage.upsert c.row (CoverageRow.remeasure c.result.metrics)
        fun _ => rfl, terrain⟩ := by
  have hkeys : (c.terrainRows.map TerrainRow.key).Nodup := by
    unfold PersistCall.terrainRows
    rw [List.map_map]
    refine List.Nodup.of_map (fun k : Nat × String × Cell => k.2.2) ?_
    rw [List.map_map]
    exact c.result.terrainCells.nodup
  obtain ⟨terrain, hins⟩ := Table.exists_insertAll
    (t := db.terrain.delete (TerrainRow.ofReplay c.replayId Coverage.matcherVersion)) hkeys
    fun t ht hmem => by
      obtain ⟨t', ht', hk⟩ := List.mem_map.mp hmem
      obtain ⟨kv, -, rfl⟩ := List.mem_map.mp ht
      have hkept := (List.mem_filter.mp ht').2
      simp only [TerrainRow.key, Prod.mk.injEq] at hk
      simp [TerrainRow.ofReplay, hk.1, hk.2.1] at hkept
  refine ⟨terrain, Table.rows_of_insertAll hins, ?_⟩
  simp only [persistStep, persist, hins]
  rfl

theorem coverage_persistStep : (persistStep db c).coverage =
    db.coverage.upsert c.row (CoverageRow.remeasure c.result.metrics) fun _ => rfl := by
  obtain ⟨terrain, -, h⟩ := persist_eq c db
  rw [h]

/-- The replay's cells are replaced by the result's. -/
theorem cellsOf_persistStep_self :
    cellsOf (persistStep db c) c.replayId Coverage.matcherVersion = c.result.terrainCells.items := by
  obtain ⟨terrain, hrows, h⟩ := persist_eq c db
  have hold : (db.terrain.rows.filter fun t =>
      !TerrainRow.ofReplay c.replayId Coverage.matcherVersion t).filter
        (TerrainRow.ofReplay c.replayId Coverage.matcherVersion) = [] := by
    rw [List.filter_filter, List.filter_eq_nil_iff]
    intro t _
    simp
  have hnew : c.terrainRows.filter (TerrainRow.ofReplay c.replayId Coverage.matcherVersion) =
      c.terrainRows := by
    rw [List.filter_eq_self]
    intro t ht
    obtain ⟨kv, -, rfl⟩ := List.mem_map.mp ht
    simp [TerrainRow.ofReplay]
  rw [h, cellsOf, hrows, List.filter_append, hold, hnew, List.nil_append, PersistCall.terrainRows,
    List.map_map]
  exact List.map_id _

/-- The cells of other replays and of other matcher versions stay as they are. -/
theorem cellsOf_persistStep_of_ne {replayId : Nat} {version : String}
    (h : ¬ (replayId = c.replayId ∧ version = Coverage.matcherVersion)) :
    cellsOf (persistStep db c) replayId version = cellsOf db replayId version := by
  obtain ⟨terrain, hrows, hdb⟩ := persist_eq c db
  have hold : (db.terrain.rows.filter fun t =>
      !TerrainRow.ofReplay c.replayId Coverage.matcherVersion t).filter
        (TerrainRow.ofReplay replayId version) =
      db.terrain.rows.filter (TerrainRow.ofReplay replayId version) := by
    rw [List.filter_filter]
    refine List.filter_congr fun t _ => ?_
    by_cases ht : TerrainRow.ofReplay replayId version t
    · simp only [TerrainRow.ofReplay, Bool.and_eq_true, decide_eq_true_eq] at ht
      simp only [TerrainRow.ofReplay, ht.1, ht.2, decide_true, Bool.and_self, Bool.true_and]
      simpa [imp_iff_not_or] using h
    · rw [Bool.not_eq_true] at ht
      rw [ht, Bool.false_and]
  have hnew : c.terrainRows.filter (TerrainRow.ofReplay replayId version) = [] := by
    rw [List.filter_eq_nil_iff]
    intro t ht hof
    obtain ⟨kv, -, rfl⟩ := List.mem_map.mp ht
    simp only [TerrainRow.ofReplay, Bool.and_eq_true, decide_eq_true_eq] at hof
    exact h ⟨hof.1.symm, hof.2.symm⟩
  rw [hdb, cellsOf, hrows, List.filter_append, hold, hnew, List.append_nil]
  rfl

theorem mem_persistStep_of_ne {row : CoverageRow σ} (h : row.key ≠ c.key) :
    row ∈ (persistStep db c).coverage.rows ↔ row ∈ db.coverage.rows := by
  rw [coverage_persistStep]
  exact Table.mem_upsert_of_ne h

theorem metrics_persistStep {row : CoverageRow σ} (hrow : row ∈ (persistStep db c).coverage.rows)
    (h : row.key = c.key) : row.metrics = c.result.metrics := by
  rw [coverage_persistStep] at hrow
  rcases Table.mem_upsert_self hrow h with rfl | ⟨old, -, -, rfl⟩
  · rfl
  · rfl

variable {c db}

/-- After a call that shares no cells but the same ones, every row still has its cells. -/
theorem undisturbed_of_sharesCells (hs : SumsMatch db) (h : SharesCells db c) :
    Undisturbed c.key db (persistStep db c) := by
  have hcells : ∀ row ∈ db.coverage.rows, row.key ≠ c.key →
      (row.cells db).Perm (row.cells (persistStep db c)) := by
    intro row hrow hkey
    by_cases hof : row.key.replayId = c.replayId ∧ row.key.matcherVersion = Coverage.matcherVersion
    · have hperm := h row hrow hkey hof.1 hof.2
      rwa [← cellsOf_persistStep_self c db, ← hof.1, ← hof.2] at hperm
    · rw [CoverageRow.cells, CoverageRow.cells, cellsOf_persistStep_of_ne c db hof]
  refine ⟨fun row hrow hkey => (mem_persistStep_of_ne c db hkey).mpr hrow,
    fun row hrow hkey kv hkv => (hcells row hrow hkey).mem_iff.mp hkv, fun row hrow => ?_⟩
  by_cases hkey : row.key = c.key
  · rw [metrics_persistStep c db hrow hkey, ← c.result.samplesIn_eq, CoverageRow.cells, hkey]
    exact congrArg samplesIn (cellsOf_persistStep_self c db)
  · rw [mem_persistStep_of_ne c db hkey] at hrow
    rw [← hs row hrow]
    exact ((hcells row hrow hkey).map _).sum_eq.symm

/-- Exactly the calls that share no cells but the same ones leave the others undisturbed. -/
theorem undisturbed_iff_sharesCells (hs : SumsMatch db) :
    Undisturbed c.key db (persistStep db c) ↔ SharesCells db c := by
  refine ⟨fun h row hrow hkey hreplay hversion => ?_, undisturbed_of_sharesCells hs⟩
  have hnew : row.cells (persistStep db c) = c.result.terrainCells.items := by
    rw [CoverageRow.cells, hreplay, hversion, cellsOf_persistStep_self]
  have hsum : samplesIn (row.cells db) = samplesIn c.result.terrainCells.items := by
    rw [hs row hrow, ← hnew, h.sums row (h.rows row hrow hkey)]
  refine perm_of_subset (cells_nodup db _ _) (fun kv hkv => ?_) c.result.sampleCount_pos hsum
  rw [← hnew]
  exact h.cells row hrow hkey kv hkv

end Call

/-! ## Histories -/

/-- Over a history of calls no row of another key is disturbed, exactly when every call finds no
    row of another key for its replay, or finds its own terrain cells stored. -/
theorem persist_undisturbed_iff {σ : Type} {db : CoverageDb σ} (hs : SumsMatch db)
    (calls : List (PersistCall σ)) :
    Steps (fun db c => Undisturbed c.key db (persistStep db c)) persistStep db calls ↔
      Steps SharesCells persistStep db calls :=
  steps_congr (I := SumsMatch) (fun _ _ _ h => h.sums)
    (fun _ _ hs => undisturbed_iff_sharesCells hs) hs calls

/-! ## Item ingestion -/

/-- The functions of `math` at a car that stands still. -/
def stillMath : CoverageMath ℚ where
  cos _ := 1
  sin _ := 0
  dist _ _ := 0
  hypot _ _ := 0
  atan2 _ _ := 0
  round4 x := x
  percent _ := "100%"

/-- One sample on the ground plane. -/
def grassSample : Motion ℚ := ⟨⟨⟨16, 8, 16⟩, 0, 0⟩, none, none⟩

/-- A capture of the sample, with the given item cells. -/
def grassCapture (itemCells : Dict Cell Nat) : CoverageInput ℚ :=
  { samples := [grassSample], checkpointIndices := [], placements := [], itemCells := itemCells
    bakedCells := Dict.empty, freePadM := 8 }

/-- The call for replay 1, with the items that one ingestion knows. -/
def grassCall (itemCells : Dict Cell Nat) (ingestion : String) : PersistCall ℚ where
  replayId := 1
  result := computeCoverage stillMath Dict.empty (grassCapture itemCells)
  telemetryHash := "t"
  parametersHash := "p"
  itemIngestionVersion := ingestion
  version := "v"

/-- No rows. -/
def emptyCoverage : CoverageDb ℚ := ⟨Table.empty, Table.empty⟩

/-- The item under the car. -/
def itemUnderCar : Dict Cell Nat := Dict.empty.setdefault ⟨0, 9, 0⟩ 7

theorem sumsMatch_empty : SumsMatch emptyCoverage := fun _ hrow => nomatch hrow

/-- After item ingestion the sample is on an item: the cell that the older row counts is gone. -/
theorem ingestion_disturbs : ¬ Steps (fun db c => Undisturbed c.key db (persistStep db c))
    persistStep emptyCoverage [grassCall Dict.empty "", grassCall itemUnderCar "items-1"] := by
  rintro ⟨-, h, -⟩
  have hlost : ∃ row ∈ (persistStep emptyCoverage (grassCall Dict.empty "")).coverage.rows,
      row.key ≠ (grassCall itemUnderCar "items-1").key ∧
        ∃ kv ∈ row.cells (persistStep emptyCoverage (grassCall Dict.empty "")),
          kv ∉ row.cells (persistStep (persistStep emptyCoverage (grassCall Dict.empty ""))
            (grassCall itemUnderCar "items-1")) := by
    decide +kernel
  obtain ⟨row, hrow, hkey, kv, hkv, hgone⟩ := hlost
  exact hgone (h.cells row hrow hkey kv hkv)

/-- An ingestion that knows no item under the car leaves the older row its cell. -/
theorem ingestion_keeps : Steps (fun db c => Undisturbed c.key db (persistStep db c))
    persistStep emptyCoverage [grassCall Dict.empty "", grassCall Dict.empty "items-1"] :=
  (persist_undisturbed_iff sumsMatch_empty _).mpr (by decide +kernel)

end TraxMania.Driven.Coverage
