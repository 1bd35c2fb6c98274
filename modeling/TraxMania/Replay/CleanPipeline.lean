import TraxMania.Replay.BreadcrumbsFile
import TraxMania.Lib.SortBy
import TraxMania.Lib.Table

/-
  `ReplayCleanPipeline`: the rules and the classification, one replay, and the loop over the
  unprocessed ones. A load error is handled where it is raised; every other exception of a loader
  leaves the loop.
-/

namespace TraxMania.Replay

open TraxMania.Generation TraxMania.Generation.Llm Lib

/-! ## Rules -/

inductive Severity where
  | warn
  | reject
deriving DecidableEq

/-- `RuleResult`. A rule has passed exactly when its result has no severity. -/
structure RuleResult where
  ruleName : String
  ruleVersion : String
  severity : Option Severity
  evidence : Entries

/-- `passed`. -/
def RuleResult.passed (r : RuleResult) : Bool := r.severity.isNone

abbrev Thresholds := Dict String Json

/-- A rule on what `τ` a loader returns. -/
structure Rule (τ : Type) where
  name : String
  defaultThresholds : Thresholds
  /-- `_evaluate`; an exception by its text. -/
  evaluate : τ → Thresholds → Except String RuleResult

/-- `run_rules` and `run_breadcrumb_rules`. -/
def runRules {τ : Type} (rules : List (Rule τ)) (thresholds : Dict String Thresholds) (t : τ) :
    Except String (List RuleResult) :=
  rules.mapM fun rule => rule.evaluate t <|
    match thresholds.get? rule.name with
    | some overrides => rule.defaultThresholds.merge overrides
    | none => rule.defaultThresholds

/-! ## Classification -/

inductive CleanStatus where
  | unprocessed
  | clean
  | usableWithWarnings
  | rejected
deriving DecidableEq

/-- The value of the status. -/
def CleanStatus.value : CleanStatus → String
  | .unprocessed => "unprocessed"
  | .clean => "clean"
  | .usableWithWarnings => "usable_with_warnings"
  | .rejected => "rejected"

structure ClassificationOutcome where
  status : CleanStatus
  triggeredRules : List String
  rejectionReasons : List String
  ruleResults : List RuleResult

/-- What a rejecting rule gives as its reason. -/
def rejectionReason (py : SidecarPython) (r : RuleResult) : String :=
  let reason := item r.evidence "reason"
  if truthy reason then r.ruleName ++ ":" ++ textOf py reason else r.ruleName

/-- `classify`. -/
def classify (py : SidecarPython) (results : List RuleResult) : ClassificationOutcome where
  status :=
    if results.any fun r => r.severity = some .reject then .rejected
    else if results.any fun r => r.severity = some .warn then .usableWithWarnings
    else .clean
  triggeredRules := (results.filter fun r => !r.passed).map RuleResult.ruleName
  rejectionReasons := (results.filter fun r => r.severity = some .reject).map (rejectionReason py)
  ruleResults := results

def Severity.value : Severity → String
  | .warn => "warn"
  | .reject => "reject"

/-- One entry of `rules` in the diagnostics. -/
def RuleResult.payload (r : RuleResult) : Json :=
  .obj [("name", .str r.ruleName), ("version", .str r.ruleVersion), ("passed", .bool r.passed),
    ("severity", (r.severity.map fun s => Json.str s.value).getD .null), ("evidence", .obj r.evidence)]

/-- `diagnostics_payload`, with the signal source and what the breadcrumb path adds. -/
def ClassificationOutcome.payload (o : ClassificationOutcome) (signalSource : String)
    (extra : Entries) : Json :=
  .obj ([("status", .str o.status.value), ("triggered", .arr (o.triggeredRules.map .str)),
    ("rejection_reasons", .arr (o.rejectionReasons.map .str)),
    ("rules", .arr (o.ruleResults.map RuleResult.payload)),
    ("signal_source", .str signalSource)] ++ extra)

/-! ## The table -/

/-- The columns of `replays` that cleaning reads and writes. -/
structure CleanRow where
  id : Nat
  mapId : Nat
  ingestionSnapshot : String
  rawArtifactPath : Option String
  rawArtifactHash : Option String
  finishTimeMs : Option Int
  cleanStatus : CleanStatus
  cleanVersion : Option String
  cleanDiagnostics : Option Json

abbrev CleanDb := Table CleanRow.id

mutual

/-- The `JSON` column takes the value: no number in it is NaN or infinite. -/
def storable : Json → Bool
  | .float (.finite _) => true
  | .float _ => false
  | .arr items => storableItems items
  | .obj entries => storableEntries entries
  | _ => true

def storableItems : List Json → Bool
  | [] => true
  | v :: items => storable v && storableItems items

def storableEntries : List (String × Json) → Bool
  | [] => true
  | (_, v) :: entries => storable v && storableEntries entries

end

/-- The row after an `UPDATE` of the classification. -/
def CleanRow.classified (status : CleanStatus) (version : String) (diagnostics : Json)
    (r : CleanRow) : CleanRow :=
  { r with cleanStatus := status, cleanVersion := some version, cleanDiagnostics := some diagnostics }

theorem CleanRow.classified_id (status : CleanStatus) (version : String) (diagnostics : Json)
    (r : CleanRow) : (r.classified status version diagnostics).id = r.id := rfl

/-- The `UPDATE` of `_write_classification` and of `_write_telemetry_unavailable`. -/
def writeStatus (id : Nat) (status : CleanStatus) (version : String) (diagnostics : Json)
    (db : CleanDb) : Except Raised CleanDb :=
  if storable diagnostics then
    .ok (db.update (fun r => r.id = id) (CleanRow.classified status version diagnostics)
      (CleanRow.classified_id status version diagnostics))
  else .error .database

/-- `_fetch_unprocessed`. -/
def fetchUnprocessed (snapshotId : Option String) (limit : Option Nat) (db : CleanDb) :
    List ReplayRow :=
  let rows := db.rows.filter fun r => r.cleanStatus = .unprocessed &&
    snapshotId.all fun snapshot => r.ingestionSnapshot = snapshot
  let sorted := SortBy.sortBy CleanRow.id rows
  let limited := match limit with
    | some n => sorted.take n
    | none => sorted
  limited.map fun r => ⟨r.id, r.mapId, r.rawArtifactPath, r.rawArtifactHash, r.finishTimeMs⟩

/-! ## The pipeline -/

/-- `CleanStats`. -/
structure CleanStats where
  replaysSeen : Nat := 0
  replaysClean : Nat := 0
  replaysUsableWithWarnings : Nat := 0
  replaysRejected : Nat := 0
  loadFailures : Nat := 0
  ruleExceptions : Nat := 0
  breadcrumbPathUsed : Nat := 0
  errors : List String := []

/-- `_bump_stats`. -/
def CleanStats.bump (status : CleanStatus) (s : CleanStats) : CleanStats :=
  match status with
  | .clean => { s with replaysClean := s.replaysClean + 1 }
  | .usableWithWarnings => { s with replaysUsableWithWarnings := s.replaysUsableWithWarnings + 1 }
  | _ => { s with replaysRejected := s.replaysRejected + 1 }

/-- A pipeline, with the files that its loaders find. -/
structure Pipeline where
  py : SidecarPython
  files : String → SidecarFile
  rules : List (Rule ReplayTelemetry)
  thresholds : Dict String Thresholds
  cleanVersion : String
  /-- `_breadcrumb_loader is not None`. -/
  hasBreadcrumbLoader : Bool
  breadcrumbRules : List (Rule ReplayBreadcrumbs)
  rules_ne_nil : rules ≠ []

/-- The database and the statistics of a run. -/
structure CleanWorld where
  db : CleanDb
  stats : CleanStats

section Pipeline

variable (p : Pipeline) (row : ReplayRow)

/-- Writes an outcome and counts it; the exception that the database raises leaves the pipeline. -/
def writeClassification (o : ClassificationOutcome) (signalSource : String) (extra : Entries)
    (count : CleanStats → CleanStats) (w : CleanWorld) : CleanWorld × Except Raised Unit :=
  match writeStatus row.id o.status p.cleanVersion (o.payload signalSource extra) w.db with
  | .ok db => (⟨db, (count w.stats).bump o.status⟩, .ok ())
  | .error e => (w, .error e)

/-- A rule has raised: the replay stays as it is. -/
def ruleException (kind text : String) (w : CleanWorld) : CleanWorld :=
  { w with stats :=
      { w.stats with
        ruleExceptions := w.stats.ruleExceptions + 1
        errors := w.stats.errors ++ [kind ++ " replay=" ++ toString row.id ++ ": " ++ text] } }

/-- `_try_breadcrumb_path`. -/
def tryBreadcrumbPath (reason : String) (w : CleanWorld) : CleanWorld × Except Raised Bool :=
  if !p.hasBreadcrumbLoader || p.breadcrumbRules.isEmpty then (w, .ok false)
  else
    match row.artifact with
    | none => (w, .ok false)
    | some raw =>
      match loadBreadcrumbs p.py p.files raw with
      | .error (.breadcrumbsLoad _) => (w, .ok false)
      | .error e => (w, .error e)
      | .ok breadcrumbs =>
        match runRules p.breadcrumbRules p.thresholds breadcrumbs with
        | .error text => (ruleException row "breadcrumb rules" text w, .ok true)
        | .ok results =>
          let written := writeClassification p row (classify p.py results) "breadcrumbs"
            [("telemetry_unavailable_reason", .str (reason.take 400).toString)]
            (fun s => { s with breadcrumbPathUsed := s.breadcrumbPathUsed + 1 }) w
          (written.1, written.2.map fun _ => true)

/-- The diagnostics of `_write_telemetry_unavailable`. -/
def unavailableDiagnostics (detail : String) : Json :=
  .obj [("status", .str CleanStatus.rejected.value), ("triggered", .arr [.str "telemetry_unavailable"]),
    ("rejection_reasons", .arr [.str ("telemetry_unavailable:" ++ (detail.take 200).toString)]),
    ("rules", .arr [])]

/-- The replay is rejected for want of a signal. -/
def rejectUnavailable (detail : String) (w : CleanWorld) : CleanWorld × Except Raised Unit :=
  let stats := { w.stats with
    errors := w.stats.errors ++ ["load replay=" ++ toString row.id ++ ": " ++ detail] }
  match writeStatus row.id .rejected p.cleanVersion (unavailableDiagnostics detail) w.db with
  | .ok db => (⟨db, { stats with replaysRejected := stats.replaysRejected + 1 }⟩, .ok ())
  | .error e => ({ w with stats := stats }, .error e)

/-- `_clean_one`. -/
def cleanOne (w : CleanWorld) : CleanWorld × Except Raised Unit :=
  match loadTelemetry p.py p.files row with
  | .error (.telemetryLoad detail) =>
    let tried := tryBreadcrumbPath p row detail
      { w with stats := { w.stats with loadFailures := w.stats.loadFailures + 1 } }
    match tried.2 with
    | .error e => (tried.1, .error e)
    | .ok true => (tried.1, .ok ())
    | .ok false => rejectUnavailable p row detail tried.1
  | .error e => (w, .error e)
  | .ok telemetry =>
    match runRules p.rules p.thresholds telemetry with
    | .error text => (ruleException row "rules" text w, .ok ())
    | .ok results => writeClassification p row (classify p.py results) "telemetry" [] id w

end Pipeline

/-- The loop of `run`: an exception ends it. -/
def cleanRows (p : Pipeline) : List ReplayRow → CleanWorld → CleanWorld × Except Raised Unit
  | [], w => (w, .ok ())
  | row :: rows, w =>
    let cleaned := cleanOne p row
      { w with stats := { w.stats with replaysSeen := w.stats.replaysSeen + 1 } }
    match cleaned.2 with
    | .error e => (cleaned.1, .error e)
    | .ok _ => cleanRows p rows cleaned.1

/-- `run`. -/
def Pipeline.run (p : Pipeline) (snapshotId : Option String) (maxReplays : Option Nat)
    (db : CleanDb) : CleanWorld × Except Raised Unit :=
  cleanRows p (fetchUnprocessed snapshotId maxReplays db) ⟨db, {}⟩

end TraxMania.Replay
