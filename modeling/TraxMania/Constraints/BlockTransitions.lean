import TraxMania.Generation.PathCells
import TraxMania.Lib.Cutoff
import TraxMania.Lib.Dict
import TraxMania.Lib.Table

/-
  `constraints/block_transitions.py`: how often one block follows another, and two others, along
  the corridors of the maps, and how the counts of each map are added to the two tables.
-/

namespace TraxMania.Constraints

open TraxMania.Generation TraxMania.Grid Lib Lib.Txn

/-! ## Rows and keys -/

/-- A row of `route_corridors` with path cells, and the environment of its map. -/
structure CorridorPath where
  environment : String
  pathCells : String
deriving DecidableEq

/-- A grid placement of a map. -/
structure PlacementRow where
  blockFamily : String
  blockType : String
  x : Option Int
  y : Option Int
  z : Option Int

/-- `_PairKey`. -/
structure PairKey where
  familyA : String
  nameA : String
  familyB : String
  nameB : String
  environment : String
deriving DecidableEq

/-- `_TripleKey`. -/
structure TripleKey where
  familyA : String
  nameA : String
  familyB : String
  nameB : String
  familyC : String
  nameC : String
  environment : String
deriving DecidableEq

/-- `_TripleKey.signature`. -/
def TripleKey.signature (sha256 : String → String) (k : TripleKey) : String :=
  sha256 ("|".intercalate [k.familyA, k.nameA, k.familyB, k.nameB, k.familyC, k.nameC,
    k.environment])

/-- A row of one of the two tables: its primary key and what that stands for, the counts, and the
    version that wrote it last. -/
structure TransitionRow (π κ : Type) where
  primary : π
  key : κ
  transitionCount : Nat
  mapCount : Nat
  createdByVersion : String
deriving DecidableEq

/-- `ON DUPLICATE KEY UPDATE`: the counts of the new row are added. -/
def TransitionRow.accumulate {π κ : Type} (new old : TransitionRow π κ) : TransitionRow π κ :=
  { old with
    transitionCount := old.transitionCount + new.transitionCount
    mapCount := old.mapCount + new.mapCount
    createdByVersion := new.createdByVersion }

/-- `block_pair_transitions` and `block_triple_transitions`. -/
structure TransitionTables where
  pairs : Table (TransitionRow.primary (π := PairKey) (κ := PairKey))
  triples : Table (TransitionRow.primary (π := String) (κ := TripleKey))
deriving DecidableEq

/-- Rows of a statement, upserted one after another. -/
def upsertRows {π κ : Type} [DecidableEq π] (rows : List (TransitionRow π κ))
    (t : Table (TransitionRow.primary (π := π) (κ := κ))) :
    Table (TransitionRow.primary (π := π) (κ := κ)) :=
  rows.foldl (fun t r => t.upsert r r.accumulate fun _ => rfl) t

/-- `_UPSERT_PAIR_SQL`. -/
def TransitionTables.upsertPairs (rows : List (TransitionRow PairKey PairKey))
    (d : TransitionTables) : TransitionTables :=
  { d with pairs := upsertRows rows d.pairs }

/-- `_UPSERT_TRIPLE_SQL`. -/
def TransitionTables.upsertTriples (rows : List (TransitionRow String TripleKey))
    (d : TransitionTables) : TransitionTables :=
  { d with triples := upsertRows rows d.triples }

/-! ## Extraction -/

/-- `_parse_path_cells(raw)`. -/
def parseCorridorCells (py : Python) (raw : String) : Except PyError (List Cell) :=
  if raw = "" then .ok [] else parseCells py raw

/-- `_fetch_blocks_by_cell`: the last placement at a cell counts. -/
def blocksByCell (placements : List PlacementRow) : Dict Cell (String × String) :=
  placements.foldl (fun out p =>
    match p.x, p.y, p.z with
    | some x, some y, some z => out.upsert ⟨x, y, z⟩ fun _ => (p.blockFamily, p.blockType)
    | _, _, _ => out) Dict.empty

/-- The pairs of one corridor: consecutive cells with known blocks. -/
def pairKeys (blockAt : Cell → Option (String × String)) (environment : String)
    (cells : List Cell) : List PairKey :=
  (cells.zip cells.tail).filterMap fun (a, b) => do
    let a ← blockAt a
    let b ← blockAt b
    return ⟨a.1, a.2, b.1, b.2, environment⟩

/-- The triples of one corridor. -/
def tripleKeys (blockAt : Cell → Option (String × String)) (environment : String)
    (cells : List Cell) : List TripleKey :=
  (cells.zip (cells.tail.zip cells.tail.tail)).filterMap fun (a, b, c) => do
    let a ← blockAt a
    let b ← blockAt b
    let c ← blockAt c
    return ⟨a.1, a.2, b.1, b.2, c.1, c.2, environment⟩

/-- `counts[key] += 1`. -/
def countKey {κ : Type} [DecidableEq κ] (counts : Dict κ Nat) (key : κ) : Dict κ Nat :=
  counts.upsert key fun old => old.getD 0 + 1

section

variable {κ : Type} [DecidableEq κ]
  (keysOf : (Cell → Option (String × String)) → String → List Cell → List κ)

/-- The loop over the rows of the two extractors. -/
def countCorridors (py : Python) (blockAt : Cell → Option (String × String)) :
    List CorridorPath → Dict κ Nat → Except PyError (Dict κ Nat)
  | [], counts => .ok counts
  | row :: rows, counts => do
    let cells ← parseCorridorCells py row.pathCells
    countCorridors py blockAt rows ((keysOf blockAt row.environment cells).foldl countKey counts)

end

/-! ## The build -/

/-- The exceptions of the build. -/
inductive BuildError where
  /-- `pymysql.MySQLError`. -/
  | mySql (text : String)
  | python (e : PyError)
deriving DecidableEq

/-- How `executemany` puts rows together in statements. -/
structure Batching (ρ : Type) where
  split : List ρ → List (List ρ)
  flatten : ∀ rows, (split rows).flatten = rows

/-- What the build reads of the corpus, and the functions that it calls. -/
structure BuildWorld where
  py : Python
  sha256 : String → String
  codeVersion : String
  corridors : Int → List CorridorPath
  placements : Int → List PlacementRow
  /-- `_SCAN_MAP_IDS_SQL` without the limit. -/
  scannedIds : List Int
  pairBatching : Batching (TransitionRow PairKey PairKey)
  tripleBatching : Batching (TransitionRow String TripleKey)

/-- `BuildReport`. -/
structure BuildReport where
  mapsSeen : Nat
  corridorsSeen : Nat
  transitionsCounted : Nat
  pairsWritten : Nat
  tripleTransitionsCounted : Nat
  triplesWritten : Nat
  /-- The map and the exception of each `map_id=…: …`. -/
  errors : List (Int × BuildError)
deriving DecidableEq

/-- `report.errors.append(…)`. -/
def BuildReport.fail (report : BuildReport) (mapId : Int) (e : BuildError) : BuildReport :=
  { report with errors := report.errors ++ [(mapId, e)] }

/-- `sum(counts.values())`. -/
def sumCounts {κ : Type} (counts : Dict κ Nat) : Nat := (counts.items.map Prod.snd).sum

section

variable (w : BuildWorld)

/-- What an extractor makes of the rows it reads. -/
def countsOf {κ : Type} [DecidableEq κ]
    (keysOf : (Cell → Option (String × String)) → String → List Cell → List κ) (mapId : Int) :
    Except PyError (Dict κ Nat) :=
  if (w.corridors mapId).isEmpty then .ok Dict.empty
  else countCorridors keysOf w.py (blocksByCell (w.placements mapId)).get? (w.corridors mapId)
    Dict.empty

/-- The two extractors, by the keys that they count. -/
def extractCounts {κ : Type} [DecidableEq κ]
    (keysOf : (Cell → Option (String × String)) → String → List Cell → List κ) (mapId : Int) :
    Conn BuildError TransitionTables (Dict κ Nat) := do
  let rows ← select fun _ => w.corridors mapId
  if rows.isEmpty then return Dict.empty
  else do
    let placements ← select fun _ => w.placements mapId
    match countCorridors keysOf w.py (blocksByCell placements).get? rows Dict.empty with
    | .ok counts => return counts
    | .error e => throw (.python e)

/-- `extract_pair_counts_for_map(conn, map_id)`. -/
def extractPairCountsForMap (mapId : Int) : Conn BuildError TransitionTables (Dict PairKey Nat) :=
  extractCounts w pairKeys mapId

/-- `extract_triple_counts_for_map(conn, map_id)`. -/
def extractTripleCountsForMap (mapId : Int) :
    Conn BuildError TransitionTables (Dict TripleKey Nat) :=
  extractCounts w tripleKeys mapId

def pairRows (counts : Dict PairKey Nat) : List (TransitionRow PairKey PairKey) :=
  counts.items.map fun kn => ⟨kn.1, kn.1, kn.2, 1, w.codeVersion⟩

def tripleRows (counts : Dict TripleKey Nat) : List (TransitionRow String TripleKey) :=
  counts.items.map fun kn => ⟨kn.1.signature w.sha256, kn.1, kn.2, 1, w.codeVersion⟩

/-- The statements of `executemany`. -/
def batches {ρ : Type} (batching : Batching ρ)
    (upsert : List ρ → TransitionTables → TransitionTables) (rows : List ρ) :
    List (TransitionTables → TransitionTables) :=
  (batching.split rows).map upsert

/-- The two writers, by the rows that they upsert. -/
def persistRows {ρ : Type} (batching : Batching ρ)
    (upsert : List ρ → TransitionTables → TransitionTables) (rows : List ρ) :
    Conn BuildError TransitionTables Nat :=
  if rows.isEmpty then return 0
  else do
    execAll (accepted (batches batching upsert rows))
    commit
    return rows.length

/-- `_persist_pair_counts(conn, counts)`. -/
def persistPairCounts (counts : Dict PairKey Nat) : Conn BuildError TransitionTables Nat :=
  persistRows w.pairBatching TransitionTables.upsertPairs (pairRows w counts)

/-- `_persist_triple_counts(conn, counts)`. -/
def persistTripleCounts (counts : Dict TripleKey Nat) : Conn BuildError TransitionTables Nat :=
  persistRows w.tripleBatching TransitionTables.upsertTriples (tripleRows w counts)

/-- The triples of one turn of the loop. -/
def buildTriples (report : BuildReport) (mapId : Int) :
    Conn BuildError TransitionTables BuildReport := do
  match ← attempt (extractTripleCountsForMap w mapId) with
  | .error e => return report.fail mapId e
  | .ok tripleCounts =>
    match ← attempt (persistTripleCounts w tripleCounts) with
    | .error e => return report.fail mapId e
    | .ok written =>
      return { report with
        triplesWritten := report.triplesWritten + written
        tripleTransitionsCounted := report.tripleTransitionsCounted + sumCounts tripleCounts }

/-- One turn of the loop over the maps: every exception ends up in the report, which keeps what has
    been added to it before. -/
def buildMap (includeTriples : Bool) (report : BuildReport) (mapId : Int) :
    Conn BuildError TransitionTables BuildReport := do
  match ← attempt (extractPairCountsForMap w mapId) with
  | .error e => return report.fail mapId e
  | .ok pairCounts =>
    match ← attempt (select fun _ => (w.corridors mapId).length) with
    | .error e => return report.fail mapId e
    | .ok corridors =>
      let report := { report with corridorsSeen := report.corridorsSeen + corridors }
      match ← attempt (persistPairCounts w pairCounts) with
      | .error e => return report.fail mapId e
      | .ok written =>
        let report := { report with
          pairsWritten := report.pairsWritten + written
          transitionsCounted := report.transitionsCounted + sumCounts pairCounts }
        if includeTriples then buildTriples w report mapId else return report

/-- `for mid in target_ids`. -/
def buildMaps (includeTriples : Bool) :
    List Int → BuildReport → Conn BuildError TransitionTables BuildReport
  | [], report => return report
  | mapId :: mapIds, report => do
    let report ← buildMap w includeTriples report mapId
    buildMaps includeTriples mapIds report

/-- The ids of the maps when none are given. A negative limit is no SQL. -/
def scanMapIds (limit : Option Int) : Conn BuildError TransitionTables (List Int) :=
  match limit with
  | none => select fun _ => w.scannedIds
  | some n =>
    if n = 0 then select fun _ => w.scannedIds
    else if n < 0 then throw (.mySql "You have an error in your SQL syntax")
    else select fun _ => w.scannedIds.take n.toNat

/-- `build_block_transition_counts(conn, map_ids=…, limit=…, include_triples=…)`. -/
def buildBlockTransitionCounts (mapIds : Option (List Int)) (limit : Option Int)
    (includeTriples : Bool) : Conn BuildError TransitionTables BuildReport := do
  let targetIds ←
    match mapIds with
    | some ids => pure ids
    | none => scanMapIds w limit
  buildMaps w includeTriples targetIds ⟨targetIds.length, 0, 0, 0, 0, 0, []⟩

end

end TraxMania.Constraints
