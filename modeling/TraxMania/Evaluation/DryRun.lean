import TraxMania.Generation.PathCells
import TraxMania.Lib.Table
import TraxMania.Lib.Dict
import TraxMania.Lib.SortBy
import TraxMania.Lib.Transition

/-
  `evaluation/dryrun/runner.py`: every evaluator on every map of the benchmark sets and of a sample
  of the community maps, and a row of `evaluation_artifacts` for each result.

  A row replaces one with its key, but a key with a `NULL` in it is equal to none, and every
  community map has such a key: its rows pile up from the second run on.
-/

namespace TraxMania.Evaluation

open TraxMania.Generation Lib Lib.Transition

/-! ## Results and rows -/

/-- The five scores of a result. -/
structure Scores where
  structural : Option JsonFloat
  drivability : Option JsonFloat
  flow : Option JsonFloat
  style : Option JsonFloat
  novelty : Option JsonFloat

/-- The columns that `ON DUPLICATE KEY UPDATE` assigns. -/
structure ArtifactValues where
  scores : Scores
  diversityMetadata : Option Json
  diagnostics : Option Json
  notes : Option String
  codeVersion : Option String
  sourceArtifactIds : Json

/-- `EvaluationResult`. -/
structure EvaluationResult where
  mapId : Int
  evaluatorName : String
  evaluatorVersion : String
  benchmarkSetVersion : Option String
  codeVersion : Option String
  sourceArtifactIds : List (String × String)
  scores : Scores
  diversityMetadata : Option (List (String × Json))
  diagnostics : List (String × Json)
  notes : Option String

/-- What the statement writes: empty diagnostics become `NULL`. -/
def EvaluationResult.values (r : EvaluationResult) : ArtifactValues where
  scores := r.scores
  diversityMetadata := r.diversityMetadata.map .obj
  diagnostics := if r.diagnostics.isEmpty then none else some (.obj r.diagnostics)
  notes := r.notes
  codeVersion := r.codeVersion
  sourceArtifactIds := .obj (r.sourceArtifactIds.map fun e => (e.1, .str e.2))

/-- The map, the name and the version of an evaluator, and a benchmark set. -/
structure ArtifactKey where
  mapId : Int
  evaluatorName : String
  evaluatorVersion : String
  benchmarkSetVersion : Option String
deriving DecidableEq

def EvaluationResult.key (r : EvaluationResult) : ArtifactKey :=
  ⟨r.mapId, r.evaluatorName, r.evaluatorVersion, r.benchmarkSetVersion⟩

/-- A row of `evaluation_artifacts`. -/
structure ArtifactRow where
  id : Nat
  key : ArtifactKey
  values : ArtifactValues

abbrev ArtifactDb := AutoTable ArtifactRow.id

/-- `uq_eval_artifacts` finds the rows to be duplicates. A `NULL` in the key is equal to none. -/
def ArtifactKey.Conflicts (k k' : ArtifactKey) : Prop := k = k' ∧ k.benchmarkSetVersion ≠ none

instance conflictsDecidable (k k' : ArtifactKey) : Decidable (k.Conflicts k') := by
  unfold ArtifactKey.Conflicts; infer_instance

/-- The statement of `_persist_result`. -/
def upsertResult (r : EvaluationResult) (db : ArtifactDb) : ArtifactDb :=
  db.upsert (fun row => row.key.Conflicts r.key) (fun n => ⟨n, r.key, r.values⟩) (fun _ => rfl)
    (fun row => { row with values := r.values }) fun _ => rfl

/-! ## Maps and benchmark sets -/

/-- A row of `maps`. -/
structure MapRow where
  id : Int
  sourceMapId : String
  ingestionSnapshot : String
  /-- `parse_status = 'success'`. -/
  parsed : Bool

/-- `BenchmarkEntry`. -/
structure BenchmarkEntry where
  mapId : String
  role : String
  label : List (String × Json)

/-- `BenchmarkManifest`. -/
structure BenchmarkManifest where
  benchmarkId : String
  version : Int
  category : String
  ingestionSnapshot : String
  entries : List BenchmarkEntry

/-- `version_id`. -/
def BenchmarkManifest.versionId (m : BenchmarkManifest) : String :=
  m.benchmarkId ++ "-v" ++ toString m.version

/-- `BenchmarkMembership`. -/
structure BenchmarkMembership where
  benchmarkVersion : String
  category : String
  role : String
  label : List (String × Json)

/-- `DryRunMap`. -/
structure DryRunMap where
  mapId : Int
  sourceMapId : String
  ingestionSnapshot : String
  memberships : List BenchmarkMembership

/-- `Evaluator`: what it returns, or the text of what it raises. -/
structure Evaluator where
  name : String
  version : String
  evaluate : Int → Option String → Except String EvaluationResult

/-- A runner, and the rows of `maps` that it finds. -/
structure DryRunRunner where
  evaluators : List Evaluator
  manifests : List BenchmarkManifest
  communitySampleSize : Int
  communitySnapshotId : Option String
  maps : List MapRow
  /-- The text of what `_persist_result` raises for a result, if it raises. -/
  refusal : EvaluationResult → Option String
  evaluators_ne_nil : evaluators ≠ []

section

variable (runner : DryRunRunner)

/-- `_lookup_benchmark_membership(conn, manifest)`. -/
def lookupBenchmarkMembership (manifest : BenchmarkManifest) : Dict String Int :=
  let sourceIds := manifest.entries.map (·.mapId)
  let rows := runner.maps.filter fun r =>
    sourceIds.contains r.sourceMapId && r.ingestionSnapshot = manifest.ingestionSnapshot
  rows.foldl (fun ids r => ids.upsert r.sourceMapId fun _ => r.id) Dict.empty

/-- `memberships_by_db_id` and `db_id_to_source`. -/
abbrev Memberships := Dict Int (List BenchmarkMembership) × Dict Int (String × String)

/-- The inner loop of `_resolve_maps`, for one entry of the lookup. -/
def addMembership (manifest : BenchmarkManifest) (s : Memberships) (found : String × Int) :
    Memberships :=
  let toSource := s.2.upsert found.2 fun _ => (found.1, manifest.ingestionSnapshot)
  match manifest.entries.find? fun e => e.mapId = found.1 with
  | none => (s.1, toSource)
  | some entry =>
    (s.1.upsert found.2 fun old => old.getD [] ++
      [⟨manifest.versionId, manifest.category, entry.role, entry.label⟩], toSource)

/-- The memberships in all the manifests. -/
def memberships : Memberships :=
  runner.manifests.foldl (fun s manifest =>
    (lookupBenchmarkMembership runner manifest).items.foldl (addMembership manifest) s)
    (Dict.empty, Dict.empty)

/-- `_fetch_community_sample(conn, exclude_ids=…, sample_size=…, snapshot_id=…)`. -/
def fetchCommunitySample (excludeIds : List Int) : List DryRunMap :=
  if runner.communitySampleSize ≤ 0 then []
  else
    let rows := runner.maps.filter fun r =>
      r.parsed && runner.communitySnapshotId.all (fun s => r.ingestionSnapshot = s) &&
        !excludeIds.contains r.id
    ((SortBy.sortBy MapRow.id rows).take runner.communitySampleSize.toNat).map fun r =>
      ⟨r.id, r.sourceMapId, r.ingestionSnapshot, []⟩

/-- `_resolve_maps`: the members of the benchmark sets, then the community sample. -/
def resolveMaps : List DryRunMap :=
  let (byId, toSource) := memberships runner
  (byId.items.map fun entry =>
    let source := (toSource.get? entry.1).getD ("", "")
    ⟨entry.1, source.1, source.2, entry.2⟩) ++ fetchCommunitySample runner byId.keys

/-- `benchmark_version`: the versions joined by commas, or `None` for a community map. -/
def DryRunMap.benchmarkVersion (m : DryRunMap) : Option String :=
  match m.memberships with
  | [] => none
  | memberships => some (",".intercalate (memberships.map (·.benchmarkVersion)))

/-! ## The run -/

/-- The parts of `DryRunReport` that the loops fill. -/
structure DryRunReport where
  maps : List DryRunMap
  results : Dict Int (List EvaluationResult)
  errors : List String

/-- The variables of the inner loop: the table, `per_map_results` and `report.errors`. -/
structure MapTurn where
  db : ArtifactDb
  perMap : List EvaluationResult
  errors : List String

/-- One turn of the inner loop: an evaluator that raises leaves no result, and a result that the
    database refuses leaves no row. -/
def evaluateOne (m : DryRunMap) (s : MapTurn) (e : Evaluator) : MapTurn :=
  match e.evaluate m.mapId m.benchmarkVersion with
  | .error text =>
    { s with errors := s.errors ++
        [e.name ++ "@" ++ e.version ++ " map=" ++ toString m.mapId ++ ": " ++ text] }
  | .ok r =>
    let s := { s with perMap := s.perMap ++ [r] }
    match runner.refusal r with
    | some text =>
      { s with errors := s.errors ++
          ["persist " ++ e.name ++ " map=" ++ toString m.mapId ++ ": " ++ text] }
    | none => { s with db := upsertResult r s.db }

/-- One turn of the outer loop. -/
def evaluateMap (s : ArtifactDb × DryRunReport) (m : DryRunMap) : ArtifactDb × DryRunReport :=
  let turn := runner.evaluators.foldl (evaluateOne runner m) ⟨s.1, [], s.2.errors⟩
  (turn.db, { s.2 with
    results := s.2.results.upsert m.mapId fun _ => turn.perMap
    errors := turn.errors })

/-- `run()`, with `persist_results`. -/
def DryRunRunner.run (db : ArtifactDb) : ArtifactDb × DryRunReport :=
  let maps := resolveMaps runner
  maps.foldl (evaluateMap runner) (db, ⟨maps, Dict.empty, []⟩)

end

/-! ## Runs as results, one after another -/

/-- A result, and whether the database takes it. -/
structure Evaluated where
  result : EvaluationResult
  accepted : Bool

/-- What an evaluator makes of a map. -/
def evaluated (runner : DryRunRunner) (m : DryRunMap) (e : Evaluator) : Option Evaluated :=
  match e.evaluate m.mapId m.benchmarkVersion with
  | .error _ => none
  | .ok r => some ⟨r, (runner.refusal r).isNone⟩

/-- The results of a run, in their order. -/
def evaluations (runner : DryRunRunner) : List Evaluated :=
  (resolveMaps runner).flatMap fun m => runner.evaluators.filterMap (evaluated runner m)

/-- What one result does to the table. -/
def store (db : ArtifactDb) (e : Evaluated) : ArtifactDb :=
  if e.accepted then upsertResult e.result db else db

theorem db_evaluateOne (runner : DryRunRunner) (m : DryRunMap) (s : MapTurn) (e : Evaluator) :
    (evaluateOne runner m s e).db = ((evaluated runner m e).toList).foldl store s.db := by
  unfold evaluateOne evaluated
  cases e.evaluate m.mapId m.benchmarkVersion with
  | error text => rfl
  | ok r =>
    dsimp only
    show _ = store s.db ⟨r, (runner.refusal r).isNone⟩
    unfold store
    cases runner.refusal r with
    | some text => rfl
    | none => rfl

theorem foldl_evaluateOne (runner : DryRunRunner) (m : DryRunMap) (es : List Evaluator)
    (s : MapTurn) :
    (es.foldl (evaluateOne runner m) s).db =
      (es.filterMap (evaluated runner m)).foldl store s.db := by
  induction es generalizing s with
  | nil => rfl
  | cons e es ih =>
    rw [List.foldl_cons, ih, db_evaluateOne]
    cases h : evaluated runner m e with
    | none => rw [List.filterMap_cons_none h]; rfl
    | some x => rw [List.filterMap_cons_some h]; rfl

/-- A run does to the table what its results do. -/
theorem run_db (runner : DryRunRunner) (db : ArtifactDb) :
    (runner.run db).1 = (evaluations runner).foldl store db := by
  have hmaps : ∀ (maps : List DryRunMap) (s : ArtifactDb × DryRunReport),
      (maps.foldl (evaluateMap runner) s).1 =
        (maps.flatMap fun m =>
          runner.evaluators.filterMap (evaluated runner m)).foldl store s.1 := by
    intro maps
    induction maps with
    | nil => intro s; rfl
    | cons m maps ih =>
      intro s
      have hmap : (evaluateMap runner s m).1 =
          (runner.evaluators.filterMap (evaluated runner m)).foldl store s.1 :=
        foldl_evaluateOne runner m runner.evaluators _
      rw [List.foldl_cons, ih, hmap, List.flatMap_cons, List.foldl_append]
  exact hmaps _ _

/-- The table, with what has been evaluated so far. -/
abbrev EvaluationState := ArtifactDb × List Evaluated

def evaluationStep (s : EvaluationState) (e : Evaluated) : EvaluationState :=
  (store s.1 e, s.2 ++ [e])

theorem after_evaluationStep (es : List Evaluated) (s : EvaluationState) :
    after evaluationStep s es = (es.foldl store s.1, s.2 ++ es) := by
  induction es generalizing s with
  | nil => exact Prod.ext rfl (List.append_nil _).symm
  | cons e es ih =>
    rw [after_cons, ih]
    unfold evaluationStep
    rw [List.append_assoc, List.foldl_cons, List.singleton_append]

/-- Runs one after another. -/
def runAll (runs : List DryRunRunner) (db : ArtifactDb) : ArtifactDb :=
  runs.foldl (fun db runner => (runner.run db).1) db

theorem runAll_eq (runs : List DryRunRunner) (db : ArtifactDb) :
    runAll runs db = (runs.flatMap evaluations).foldl store db := by
  unfold runAll
  induction runs generalizing db with
  | nil => rfl
  | cons runner runs ih =>
    rw [List.foldl_cons, ih, run_db, List.flatMap_cons, List.foldl_append]

/-! ## One row for each key -/

/-- The last result with the key. -/
def lastResult (es : List Evaluated) (k : ArtifactKey) : Option EvaluationResult :=
  ((es.filter fun e => decide (e.result.key = k)).getLast?).map Evaluated.result

theorem lastResult_concat (es : List Evaluated) (e : Evaluated) (k : ArtifactKey) :
    lastResult (es ++ [e]) k =
      if e.result.key = k then some e.result else lastResult es k := by
  unfold lastResult
  rw [List.filter_append]
  by_cases h : e.result.key = k
  · rw [if_pos h, List.filter_cons_of_pos (by simpa using h), List.filter_nil, List.getLast?_concat]
    rfl
  · rw [if_neg h, List.filter_cons_of_neg (by simpa using h), List.filter_nil, List.append_nil]

/-- Results replace the earlier results of their key. -/
structure Replaced (s : EvaluationState) : Prop where
  /-- There is at most one row for each key; -/
  unique : (s.1.rows.map (·.key)).Nodup
  /-- it has the scores of the last result with that key; -/
  last : ∀ row ∈ s.1.rows, ∀ r, lastResult s.2 row.key = some r → row.values.scores = r.scores
  /-- and what the database has taken has a row. -/
  stored : ∀ e ∈ s.2, e.accepted = true → ∃ row ∈ s.1.rows, row.key = e.result.key

/-- The condition on a result: one that is taken without a benchmark set is the first of its key,
    and one that is refused has the scores of the row with its key, if there is one. -/
def InPlace (s : EvaluationState) (e : Evaluated) : Prop :=
  if e.accepted then
    e.result.benchmarkSetVersion = none → ∀ row ∈ s.1.rows, row.key ≠ e.result.key
  else ∀ row ∈ s.1.rows, row.key = e.result.key → row.values.scores = e.result.scores

/-! ## One result -/

section

variable {db : ArtifactDb} {r : EvaluationResult}

/-- The keys after the statement. -/
theorem keys_upsertResult :
    (upsertResult r db).rows.map (·.key) =
      if r.benchmarkSetVersion ≠ none ∧ r.key ∈ db.rows.map (·.key) then db.rows.map (·.key)
      else db.rows.map (·.key) ++ [r.key] := by
  have hany : (db.rows.any fun row => decide (row.key.Conflicts r.key)) = true ↔
      r.benchmarkSetVersion ≠ none ∧ r.key ∈ db.rows.map (·.key) := by
    rw [List.any_eq_true, List.mem_map]
    constructor
    · rintro ⟨row, hrow, hconf⟩
      obtain ⟨hkey, hsome⟩ := of_decide_eq_true hconf
      rw [hkey] at hsome
      exact ⟨hsome, row, hrow, hkey⟩
    · rintro ⟨hsome, row, hrow, hkey⟩
      refine ⟨row, hrow, decide_eq_true ⟨hkey, ?_⟩⟩
      rw [hkey]
      exact hsome
  unfold upsertResult
  split
  · next h =>
    rw [AutoTable.rows_upsert_pos (hany.mpr h), List.map_map]
    refine List.map_congr_left fun row _ => ?_
    rw [Function.comp_apply]
    split <;> rfl
  · next h =>
    rw [AutoTable.rows_upsert_neg (by rw [← Bool.not_eq_true, hany]; exact h), List.map_append]
    rfl

/-- A row after the statement has the result, or it is as it was and no duplicate. -/
theorem mem_upsertResult {row : ArtifactRow} (h : row ∈ (upsertResult r db).rows) :
    (row.key = r.key ∧ row.values = r.values) ∨
      (row ∈ db.rows ∧ ¬ row.key.Conflicts r.key) := by
  rcases AutoTable.mem_upsert h with ⟨-, rfl⟩ | ⟨row', -, hconf, rfl⟩ | ⟨hrow, hconf⟩
  · exact .inl ⟨rfl, rfl⟩
  · exact .inl ⟨(of_decide_eq_true hconf).1, rfl⟩
  · exact .inr ⟨hrow, of_decide_eq_false hconf⟩

/-- The statement adds the key of the result, unless it is there. -/
theorem mem_keys_upsertResult {key : ArtifactKey} :
    key ∈ (upsertResult r db).rows.map (·.key) ↔ key ∈ db.rows.map (·.key) ∨ key = r.key := by
  rw [keys_upsertResult]
  split
  · next h =>
    refine ⟨Or.inl, fun hk => hk.elim id ?_⟩
    rintro rfl
    exact h.2
  · rw [List.mem_append, List.mem_singleton]

end

/-- A result that the database takes. -/
theorem replaced_accepted_iff {s : EvaluationState} (hs : Replaced s) {e : Evaluated}
    (he : e.accepted = true) :
    Replaced (evaluationStep s e) ↔
      (e.result.benchmarkSetVersion = none → ∀ row ∈ s.1.rows, row.key ≠ e.result.key) := by
  have hdb : (evaluationStep s e).1 = upsertResult e.result s.1 := if_pos he
  constructor
  · -- a second row for the key would be in the table
    intro h hnone row hrow hkey
    have hunique := h.unique
    rw [hdb, keys_upsertResult, if_neg fun hc => hc.1 hnone, List.nodup_append] at hunique
    exact hunique.2.2 row.key (List.mem_map_of_mem hrow) e.result.key (List.mem_singleton_self _)
      hkey
  · intro h
    -- no row of the key is left as it was
    have hother : ∀ row ∈ s.1.rows, ¬ row.key.Conflicts e.result.key → row.key ≠ e.result.key := by
      intro row hrow hconf hkey
      refine h ?_ row hrow hkey
      by_contra hsome
      exact hconf ⟨hkey, by rw [hkey]; exact hsome⟩
    refine ⟨?_, ?_, ?_⟩
    · rw [hdb, keys_upsertResult]
      split
      · exact hs.unique
      · next hnew =>
        rw [List.nodup_append]
        refine ⟨hs.unique, List.nodup_singleton _, ?_⟩
        intro k hk k' hk' hkk
        obtain ⟨row, hrow, rfl⟩ := List.mem_map.mp hk
        rw [List.mem_singleton.mp hk'] at hkk
        refine hother row hrow (fun hconf => hnew ⟨?_, ?_⟩) hkk
        · intro hnone
          exact hconf.2 (by rw [hkk]; exact hnone)
        · rw [← hkk]
          exact hk
    · intro row hrow r hr
      rw [hdb] at hrow
      have hlast : lastResult (s.2 ++ [e]) row.key = some r := hr
      rw [lastResult_concat] at hlast
      rcases mem_upsertResult hrow with ⟨hkey, hvalues⟩ | ⟨hrow, hconf⟩
      · rw [if_pos hkey.symm] at hlast
        rw [hvalues, ← Option.some.inj hlast]
        rfl
      · rw [if_neg (Ne.symm (hother row hrow hconf))] at hlast
        exact hs.last row hrow r hlast
    · intro e' he' haccepted
      have hkeys : e'.result.key ∈ (evaluationStep s e).1.rows.map (·.key) := by
        rw [hdb, mem_keys_upsertResult]
        rcases List.mem_append.mp he' with he' | he'
        · exact Or.inl (List.mem_map.mpr (hs.stored e' he' haccepted))
        · rw [List.mem_singleton.mp he']
          exact Or.inr rfl
      exact List.mem_map.mp hkeys

/-- A result that the database refuses. -/
theorem replaced_refused_iff {s : EvaluationState} (hs : Replaced s) {e : Evaluated}
    (he : e.accepted = false) :
    Replaced (evaluationStep s e) ↔
      ∀ row ∈ s.1.rows, row.key = e.result.key → row.values.scores = e.result.scores := by
  have hdb : (evaluationStep s e).1 = s.1 := if_neg (by rw [he]; exact Bool.false_ne_true)
  constructor
  · intro h row hrow hkey
    refine h.last row (by rw [hdb]; exact hrow) e.result ?_
    show lastResult (s.2 ++ [e]) row.key = some e.result
    rw [lastResult_concat, if_pos hkey.symm]
  · intro h
    refine ⟨by rw [hdb]; exact hs.unique, ?_, ?_⟩
    · intro row hrow r hr
      rw [hdb] at hrow
      have hlast : lastResult (s.2 ++ [e]) row.key = some r := hr
      rw [lastResult_concat] at hlast
      split at hlast
      · next hkey =>
        rw [h row hrow hkey.symm, Option.some.inj hlast]
      · exact hs.last row hrow r hlast
    · intro e' he' haccepted
      rw [hdb]
      rcases List.mem_append.mp he' with he' | he'
      · exact hs.stored e' he' haccepted
      · rw [List.mem_singleton.mp he', he] at haccepted
        cases haccepted

/-- A result keeps the rows in order exactly when it meets the condition. -/
theorem replaced_step_iff {s : EvaluationState} (hs : Replaced s) (e : Evaluated) :
    Replaced (evaluationStep s e) ↔ InPlace s e := by
  unfold InPlace
  cases he : e.accepted with
  | true => rw [if_pos rfl, replaced_accepted_iff hs he]
  | false => rw [if_neg Bool.false_ne_true, replaced_refused_iff hs he]

/-- Runs leave what their results leave, and in all the states between the results each of them
    has replaced the earlier ones exactly when they all meet the condition. -/
theorem rerun_replaces_iff (runs : List DryRunRunner) {db : ArtifactDb}
    (hdb : (db.rows.map (·.key)).Nodup) :
    runAll runs db = (after evaluationStep (db, []) (runs.flatMap evaluations)).1 ∧
      ((∀ before, before <+: runs.flatMap evaluations →
          Replaced (after evaluationStep (db, []) before)) ↔
        Steps InPlace evaluationStep (db, []) (runs.flatMap evaluations)) := by
  constructor
  · rw [runAll_eq, after_evaluationStep]
  · have hstart : Replaced (db, []) := by
      refine ⟨hdb, ?_, ?_⟩
      · intro row _ r hr
        cases hr
      · intro e he
        cases he
    have hstep : ∀ s e, True → Replaced s → (Replaced (evaluationStep s e) ↔ InPlace s e) :=
      fun s e _ hs => replaced_step_iff hs e
    exact forall_prefix_iff_steps (fun _ _ _ => trivial) hstep _ (db, []) trivial hstart

/-! ## One community map -/

def flatScores : Scores := ⟨none, none, none, none, none⟩

/-- An evaluator that scores nothing. -/
def flatEvaluator : Evaluator where
  name := "flat"
  version := "0.1.0"
  evaluate mapId version := .ok ⟨mapId, "flat", "0.1.0", version, none, [], flatScores, none, [], none⟩

/-- A dry run over the one map that there is. -/
def communityRunner : DryRunRunner where
  evaluators := [flatEvaluator]
  manifests := []
  communitySampleSize := 1
  communitySnapshotId := none
  maps := [⟨1, "m", "s", true⟩]
  refusal _ := none
  evaluators_ne_nil := List.cons_ne_nil _ _

/-- One run is in order. -/
theorem rerun_replaces_community :
    Replaced (after evaluationStep (AutoTable.empty, [])
      ([communityRunner].flatMap evaluations)) := by
  have hnodup : ((AutoTable.empty : ArtifactDb).rows.map (·.key)).Nodup := List.nodup_nil
  refine (rerun_replaces_iff [communityRunner] hnodup).2.mpr ?_ _ List.prefix_rfl
  have hfirst : InPlace (AutoTable.empty, []) ⟨⟨1, "flat", "0.1.0", none, none, [], flatScores, none,
      [], none⟩, true⟩ := by
    intro _ row hrow
    cases hrow
  exact And.intro hfirst trivial

/-- The second run adds a row of the same key. -/
theorem community_rerun_duplicates :
    (runAll [communityRunner, communityRunner] AutoTable.empty).rows.map (·.key) =
        [⟨1, "flat", "0.1.0", none⟩, ⟨1, "flat", "0.1.0", none⟩] ∧
      ¬ Replaced (after evaluationStep (AutoTable.empty, [])
        ([communityRunner, communityRunner].flatMap evaluations)) := by
  have hkeys : (runAll [communityRunner, communityRunner] AutoTable.empty).rows.map (·.key) =
      [⟨1, "flat", "0.1.0", none⟩, ⟨1, "flat", "0.1.0", none⟩] := by
    decide +kernel
  refine ⟨hkeys, fun h => ?_⟩
  have hunique := h.unique
  rw [after_evaluationStep, ← runAll_eq, hkeys] at hunique
  revert hunique
  decide

end TraxMania.Evaluation
