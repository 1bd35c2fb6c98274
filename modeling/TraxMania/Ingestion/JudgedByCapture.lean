import TraxMania.Ingestion.OpenplanetTelemetry
import TraxMania.Lib.Transition
import TraxMania.Replay.QueueAdvances

/-
  Is a captured replay judged by its capture? Ingestion and cleaning write disjoint columns of a
  row, and the loader of the cleaning looks for its file under another column than the one that the
  ingestion fills. A row keeps the verdict on its capture over any number of captures, ingestions
  and cleanings as long as two things do not happen: that a cleaning gets to a row with a capture
  which the loader does not find, and that a row with a verdict gets another capture.
-/

namespace TraxMania.Ingestion

open TraxMania.Generation TraxMania.Replay Lib Lib.Transition

/-! ## Runs -/

/-- The files on disk, and the table. -/
structure CaptureWorld where
  files : String → SidecarFile
  db : CaptureDb

/-- The rows as cleaning sees them. -/
def cleanDbOf (db : CaptureDb) : CleanDb :=
  ⟨db.rows.map CapturedRow.clean, by rw [List.map_map]; exact db.table.nodup⟩

/-- A row after the cleaning. -/
def CapturedRow.cleaned (cleanDb : CleanDb) (r : CapturedRow) : CapturedRow :=
  { r with clean := (cleanDb.find r.clean.id).getD r.clean }

theorem CapturedRow.cleaned_id (cleanDb : CleanDb) (r : CapturedRow) :
    (r.cleaned cleanDb).clean.id = r.clean.id := by
  unfold CapturedRow.cleaned
  cases h : cleanDb.find r.clean.id with
  | none => rfl
  | some c => exact (Table.find_eq_some.mp h).2

/-- The table after the cleaning. -/
def cleanedDb (db : CaptureDb) (cleanDb : CleanDb) : CaptureDb :=
  db.update (fun _ => true) (CapturedRow.cleaned cleanDb) (CapturedRow.cleaned_id cleanDb)

/-- What happens one after another: new files are captured, a directory is ingested, the
    unprocessed rows are cleaned. -/
inductive Command where
  | capture (files : String → SidecarFile)
  | ingest (listing : List String) (snapshot version : String) (dryRun : Bool)
  | clean (snapshotId : Option String) (maxReplays : Option Nat)

/-- The pipeline, with the files that are there now. -/
def pipelineOn (p : Pipeline) (files : String → SidecarFile) : Pipeline := { p with files := files }

/-- One command. An exception ends it, and what it has committed stays. -/
def Command.step (i : IngestWorld) (p : Pipeline) (w : CaptureWorld) : Command → CaptureWorld
  | .capture files => { w with files := files }
  | .ingest listing snapshot version dryRun =>
    { w with db := (ingestDirectory i p.py w.files snapshot version dryRun listing w.db).1.1 }
  | .clean snapshotId maxReplays =>
    { w with
      db := cleanedDb w.db
        ((pipelineOn p w.files).run snapshotId maxReplays (cleanDbOf w.db)).1.db }

/-! ## The claim of a verdict -/

/-- The telemetry that a row references. -/
def telemetryOf (py : SidecarPython) (files : String → SidecarFile) (r : CapturedRow) :
    Option ReplayTelemetry :=
  r.openplanetTelemetryPath.bind fun path => readCapture py (files path)

/-- The status of the row is the verdict on the telemetry, and it is not one for want of a file. -/
def JudgedBy (p : Pipeline) (t : ReplayTelemetry) (c : CleanRow) : Prop :=
  (∃ results, runRules p.rules p.thresholds t = .ok results ∧
    c.cleanStatus = (classify p.py results).status) ∧
  ∀ detail, c.cleanDiagnostics ≠ some (unavailableDiagnostics detail)

/-- Every row with a verdict that references telemetry has the verdict on it. -/
def AllJudgedByCapture (p : Pipeline) (w : CaptureWorld) : Prop :=
  ∀ r ∈ w.db.rows, ∀ t, telemetryOf p.py w.files r = some t →
    r.clean.cleanStatus ≠ .unprocessed → JudgedBy p t r.clean

/-- The rules cannot tell the two apart. -/
def Alike (p : Pipeline) (t t' : ReplayTelemetry) : Prop :=
  runRules p.rules p.thresholds t = runRules p.rules p.thresholds t'

theorem JudgedBy.alike {p : Pipeline} {t t' : ReplayTelemetry} {c : CleanRow}
    (h : JudgedBy p t c) (ht : Alike p t t') : JudgedBy p t' c := by
  obtain ⟨⟨results, hresults, hstatus⟩, hdetail⟩ := h
  exact ⟨⟨results, ht ▸ hresults, hstatus⟩, hdetail⟩

/-! ## Cleaning -/

section Cleaning

variable {p : Pipeline}

theorem db_of_writeClassification_error {row : ReplayRow} {o : ClassificationOutcome}
    {source : String} {extra : Entries} {count : CleanStats → CleanStats} {w : CleanWorld}
    (h : ∀ u, (writeClassification p row o source extra count w).2 ≠ .ok u) :
    (writeClassification p row o source extra count w).1.db = w.db := by
  unfold writeClassification at h ⊢
  cases hw : writeStatus row.id o.status p.cleanVersion (o.payload source extra) w.db with
  | ok db =>
    rw [hw] at h
    exact absurd rfl (h ())
  | error e' => rfl

/-- Only breadcrumbs that are found change the table. -/
theorem db_tryBreadcrumbPath {row : ReplayRow} {reason : String} {w : CleanWorld}
    (h : (tryBreadcrumbPath p row reason w).2 ≠ .ok true) :
    (tryBreadcrumbPath p row reason w).1.db = w.db := by
  unfold tryBreadcrumbPath at h ⊢
  split
  · rfl
  · next hon =>
    rw [if_neg hon] at h
    cases hraw : row.artifact with
    | none => rfl
    | some raw =>
      rw [hraw] at h
      dsimp only at h ⊢
      cases hload : loadBreadcrumbs p.py p.files raw with
      | error e => cases e <;> rfl
      | ok breadcrumbs =>
        rw [hload] at h
        dsimp only at h ⊢
        cases hrules : runRules p.breadcrumbRules p.thresholds breadcrumbs with
        | error text => rfl
        | ok results =>
          rw [hrules] at h
          dsimp only at h ⊢
          refine db_of_writeClassification_error fun u hu => h ?_
          rw [hu]
          rfl

theorem db_rejectUnavailable {row : ReplayRow} {detail : String} {w : CleanWorld} {e : Raised}
    (h : (rejectUnavailable p row detail w).2 = .error e) :
    (rejectUnavailable p row detail w).1.db = w.db := by
  unfold rejectUnavailable at h ⊢
  cases hw : writeStatus row.id .rejected p.cleanVersion (unavailableDiagnostics detail) w.db with
  | ok db =>
    rw [hw] at h
    cases h
  | error e' => rfl

/-- A replay that ends the loop leaves the table as it is. -/
theorem db_cleanOne_of_error {row : ReplayRow} {w : CleanWorld} {e : Raised}
    (h : (cleanOne p row w).2 = .error e) : (cleanOne p row w).1.db = w.db := by
  unfold cleanOne at h ⊢
  cases hload : loadTelemetry p.py p.files row with
  | ok telemetry =>
    rw [hload] at h
    dsimp only at h ⊢
    cases hrules : runRules p.rules p.thresholds telemetry with
    | error text => rfl
    | ok results =>
      rw [hrules] at h
      refine db_of_writeClassification_error fun u hu => ?_
      dsimp only at h
      rw [hu] at h
      cases h
  | error load =>
    cases load with
    | telemetryLoad detail =>
      rw [hload] at h
      dsimp only at h ⊢
      cases htried : (tryBreadcrumbPath p row detail
          { w with stats := { w.stats with loadFailures := w.stats.loadFailures + 1 } }).2 with
      | error e' =>
        refine db_tryBreadcrumbPath fun hfound => ?_
        rw [htried] at hfound
        cases hfound
      | ok found =>
        rw [htried] at h
        cases found with
        | true => cases h
        | false =>
          refine (db_rejectUnavailable h).trans (db_tryBreadcrumbPath ?_)
          rw [htried]
          exact fun hfound => Bool.false_ne_true (Except.ok.inj hfound)
    | _ => rfl

/-- The replays that the loop gets through. -/
def reached (p : Pipeline) (rows : List ReplayRow) : List ReplayRow :=
  rows.takeWhile fun row => (verdict p row).isOk

/-- A row after the loop is as it was, or it has the verdict of a replay that was reached. -/
theorem find_cleanRows (rows : List ReplayRow) (w : CleanWorld) {id : Nat} {c : CleanRow}
    (h : (cleanRows p rows w).1.db.find id = some c) :
    w.db.find id = some c ∨ ∃ row ∈ reached p rows, row.id = id ∧ ∃ status diagnostics c',
      verdict p row = .ok (some (status, diagnostics)) ∧
        c = CleanRow.classified status p.cleanVersion diagnostics c' := by
  induction rows generalizing w with
  | nil => exact .inl h
  | cons row rows ih =>
    cases hv : verdict p row with
    | error e =>
      obtain ⟨hraised, hstep⟩ := cleanRows_of_error p hv rows w
      rw [hstep, db_cleanOne_of_error hraised] at h
      exact .inl h
    | ok v =>
      obtain ⟨hstep, -, hdb⟩ := cleanRows_of_ok p hv rows w
      rw [hstep] at h
      have hreached : reached p (row :: rows) = row :: reached p rows := by
        unfold reached
        rw [List.takeWhile_cons_of_pos (by rw [hv]; rfl)]
      rw [hreached]
      rcases ih _ h with hfind | ⟨row', hrow', hrest⟩
      · rw [hdb] at hfind
        by_cases hid : row.id = id
        · subst hid
          cases v with
          | none => exact .inl hfind
          | some v =>
            rw [find_apply] at hfind
            obtain ⟨c', hc', hc⟩ := Option.map_eq_some_iff.mp hfind
            rw [if_pos (Table.find_eq_some.mp hc').2] at hc
            exact .inr ⟨row, List.mem_cons_self, rfl, v.1, v.2, c', hv, hc.symm⟩
        · rw [find_apply_of_ne p row v _ hid] at hfind
          exact .inl hfind
      · exact .inr ⟨row', List.mem_cons_of_mem _ hrow', hrest⟩

end Cleaning

/-! ## Ingestion -/

section Ingesting

variable {i : IngestWorld} {py : SidecarPython} {files : String → SidecarFile}
  {snapshot version : String} {dryRun : Bool}

/-- The values of a file that is written. -/
def writtenValues : Except Raised FileOutcome → Option CaptureValues
  | .ok (.write v) => some v
  | _ => none

/-- What the loop writes: the values of the files that it gets through. -/
def written (i : IngestWorld) (py : SidecarPython) (files : String → SidecarFile) (dryRun : Bool)
    (listing : List String) : List CaptureValues :=
  (listing.takeWhile fun path => (fileOutcome i py files dryRun path).isOk).filterMap fun path =>
    writtenValues (fileOutcome i py files dryRun path)

/-- The statements of the values, one after another. -/
def upsertCaptures (snapshot version : String) (vs : List CaptureValues) (db : CaptureDb) :
    CaptureDb :=
  vs.foldl (fun db v => upsertCapture snapshot version v db) db

theorem ingestFiles_db (listing : List String) (s : CaptureDb × IngestStats) :
    (ingestFiles i py files snapshot version dryRun listing s).1.1 =
      upsertCaptures snapshot version (written i py files dryRun listing) s.1 := by
  induction listing generalizing s with
  | nil => rfl
  | cons path paths ih =>
    rw [ingestFiles]
    unfold written
    cases hout : fileOutcome i py files dryRun path with
    | error e =>
      rw [List.takeWhile_cons_of_neg (by rw [hout]; exact Bool.false_ne_true)]
      rfl
    | ok outcome =>
      rw [List.takeWhile_cons_of_pos (by rw [hout]; rfl)]
      simp only
      rw [ih]
      cases outcome with
      | invalid => rw [List.filterMap_cons_none (by rw [hout]; rfl)]; rfl
      | unmatched => rw [List.filterMap_cons_none (by rw [hout]; rfl)]; rfl
      | dry => rw [List.filterMap_cons_none (by rw [hout]; rfl)]; rfl
      | write v =>
        rw [List.filterMap_cons_some (b := v) (by rw [hout]; rfl)]
        rfl

/-- Where a row with a verdict comes from: it has the verdict of a row from before, and its capture
    is that row's or a new one for its key. -/
def ComesFrom (db : CaptureDb) (snapshot : String) (vs : List CaptureValues) (r : CapturedRow) :
    Prop :=
  ∃ r' ∈ db.rows, r.clean.cleanStatus = r'.clean.cleanStatus ∧
    r.clean.cleanDiagnostics = r'.clean.cleanDiagnostics ∧ r.naturalKey = r'.naturalKey ∧
    (r.openplanetTelemetryPath = r'.openplanetTelemetryPath ∨
      ∃ v ∈ vs, r'.naturalKey = captureKey snapshot v ∧ r.openplanetTelemetryPath = some v.path)

theorem comesFrom_upsertCapture {db : CaptureDb} {v : CaptureValues} {r : CapturedRow}
    (hr : r ∈ (upsertCapture snapshot version v db).rows)
    (hjudged : r.clean.cleanStatus ≠ .unprocessed) : ComesFrom db snapshot [v] r := by
  rcases AutoTable.mem_upsert hr with ⟨-, rfl⟩ | ⟨r', hr', hkey, rfl⟩ | ⟨hr, -⟩
  · -- an inserted row has no verdict
    exact absurd rfl hjudged
  · exact ⟨r', hr', rfl, rfl, rfl, .inr ⟨v, List.mem_singleton_self v, of_decide_eq_true hkey, rfl⟩⟩
  · exact ⟨r, hr, rfl, rfl, rfl, .inl rfl⟩

theorem comesFrom_upsertCaptures (vs : List CaptureValues) {db : CaptureDb} {r : CapturedRow}
    (hr : r ∈ (upsertCaptures snapshot version vs db).rows)
    (hjudged : r.clean.cleanStatus ≠ .unprocessed) : ComesFrom db snapshot vs r := by
  induction vs generalizing db with
  | nil => exact ⟨r, hr, rfl, rfl, rfl, .inl rfl⟩
  | cons v vs ih =>
    obtain ⟨r₁, hr₁, hstatus₁, hdiag₁, hkey₁, hpath₁⟩ := ih hr
    rw [hstatus₁] at hjudged
    obtain ⟨r₀, hr₀, hstatus₀, hdiag₀, hkey₀, hpath₀⟩ := comesFrom_upsertCapture hr₁ hjudged
    refine ⟨r₀, hr₀, hstatus₁.trans hstatus₀, hdiag₁.trans hdiag₀, hkey₁.trans hkey₀, ?_⟩
    rcases hpath₁ with hpath₁ | ⟨v', hv', hkey', hpath'⟩
    · rcases hpath₀ with hpath₀ | ⟨v', hv', hkey', hpath'⟩
      · exact .inl (hpath₁.trans hpath₀)
      · obtain rfl := List.mem_singleton.mp hv'
        exact .inr ⟨v', List.mem_cons_self, hkey', hpath₁.trans hpath'⟩
    · exact .inr ⟨v', List.mem_cons_of_mem _ hv', hkey₀.symm.trans hkey', hpath'⟩

end Ingesting

/-! ## The condition -/

/-- The condition on a command, in the state before it. -/
def Allowed (i : IngestWorld) (p : Pipeline) (w : CaptureWorld) : Command → Prop
  -- the file of a row with a verdict is not overwritten by one that the rules can tell from it
  | .capture files => ∀ r ∈ w.db.rows, r.clean.cleanStatus ≠ .unprocessed →
      ∀ t', telemetryOf p.py files r = some t' →
        ∃ t, telemetryOf p.py w.files r = some t ∧ Alike p t t'
  -- the row is not ingested again with such a file
  | .ingest listing snapshot _ dryRun => ∀ v ∈ written i p.py w.files dryRun listing,
      ∀ r ∈ w.db.rows, r.naturalKey = captureKey snapshot v →
        r.clean.cleanStatus ≠ .unprocessed →
          ∀ t', readCapture p.py (w.files v.path) = some t' →
            ∃ t, telemetryOf p.py w.files r = some t ∧ Alike p t t'
  -- for a row with a capture that the cleaning gets to, the loader finds that capture
  | .clean snapshotId maxReplays =>
      ∀ row ∈ reached (pipelineOn p w.files)
          (fetchUnprocessed snapshotId maxReplays (cleanDbOf w.db)),
        ∀ r ∈ w.db.rows, r.clean.id = row.id →
          ∀ t, telemetryOf p.py w.files r = some t →
            ∃ t', loadTelemetry p.py w.files row = .ok t' ∧ Alike p t t'

/-- The diagnostics of an outcome name a signal source, those for want of a file do not. -/
theorem payload_ne_unavailable (o : ClassificationOutcome) (source : String) (extra : Entries)
    (detail : String) : o.payload source extra ≠ unavailableDiagnostics detail := by
  intro h
  unfold ClassificationOutcome.payload unavailableDiagnostics at h
  have hlength := congrArg List.length (Json.obj.inj h)
  simp at hlength

/-- The verdict on telemetry that was loaded. -/
theorem judgedBy_of_verdict {p : Pipeline} {row : ReplayRow} {t : ReplayTelemetry}
    {status : CleanStatus} {diagnostics : Json}
    (hload : loadTelemetry p.py p.files row = .ok t)
    (hv : verdict p row = .ok (some (status, diagnostics))) (c : CleanRow) :
    JudgedBy p t (CleanRow.classified status p.cleanVersion diagnostics c) := by
  unfold verdict at hv
  rw [hload] at hv
  dsimp only at hv
  cases hrules : runRules p.rules p.thresholds t with
  | error text =>
    rw [hrules] at hv
    cases hv
  | ok results =>
    rw [hrules] at hv
    unfold ruled stored at hv
    dsimp only at hv
    split at hv
    · cases hv
      refine ⟨⟨results, hrules, rfl⟩, fun detail hdetail => ?_⟩
      exact payload_ne_unavailable _ _ _ detail (Option.some.inj hdetail)
    · cases hv

/-! ## Steps and runs -/

section Steps

variable {i : IngestWorld} {p : Pipeline} {w : CaptureWorld}

theorem judged_capture {files : String → SidecarFile} (hw : AllJudgedByCapture p w)
    (h : Allowed i p w (.capture files)) :
    AllJudgedByCapture p (Command.step i p w (.capture files)) := by
  intro r hr t' ht' hjudged
  obtain ⟨t, ht, halike⟩ := h r hr hjudged t' ht'
  exact (hw r hr t ht hjudged).alike halike

theorem judged_ingest {listing : List String} {snapshot version : String} {dryRun : Bool}
    (hw : AllJudgedByCapture p w) (h : Allowed i p w (.ingest listing snapshot version dryRun)) :
    AllJudgedByCapture p (Command.step i p w (.ingest listing snapshot version dryRun)) := by
  intro r hr t' ht' hjudged
  have hdb : (Command.step i p w (.ingest listing snapshot version dryRun)).db =
      upsertCaptures snapshot version (written i p.py w.files dryRun listing) w.db :=
    ingestFiles_db listing _
  rw [hdb] at hr
  obtain ⟨r₀, hr₀, hstatus, hdiag, -, hpath⟩ := comesFrom_upsertCaptures _ hr hjudged
  have hjudged₀ : r₀.clean.cleanStatus ≠ .unprocessed := by
    rw [← hstatus]
    exact hjudged
  -- the capture is the one of before, or one that the rules cannot tell from it
  have hsame : ∃ t, telemetryOf p.py w.files r₀ = some t ∧ Alike p t t' := by
    unfold telemetryOf at ht'
    rcases hpath with hpath | ⟨v, hv, hkey, hpath⟩
    · rw [hpath] at ht'
      exact ⟨t', ht', rfl⟩
    · rw [hpath] at ht'
      exact h v hv r₀ hr₀ hkey hjudged₀ t' ht'
  obtain ⟨t, ht, halike⟩ := hsame
  obtain ⟨⟨results, hresults, hverdict⟩, hdetail⟩ := (hw r₀ hr₀ t ht hjudged₀).alike halike
  refine ⟨⟨results, hresults, hstatus.trans hverdict⟩, fun detail hd => hdetail detail ?_⟩
  rw [← hdiag]
  exact hd

theorem judged_clean {snapshotId : Option String} {maxReplays : Option Nat}
    (hw : AllJudgedByCapture p w) (h : Allowed i p w (.clean snapshotId maxReplays)) :
    AllJudgedByCapture p (Command.step i p w (.clean snapshotId maxReplays)) := by
  intro r hr t ht hjudged
  obtain ⟨r₀, hr₀, rfl⟩ := List.mem_map.mp hr
  have hcleaned : (if (fun _ => true) r₀ = true then
      r₀.cleaned ((pipelineOn p w.files).run snapshotId maxReplays (cleanDbOf w.db)).1.db else r₀) =
      r₀.cleaned ((pipelineOn p w.files).run snapshotId maxReplays (cleanDbOf w.db)).1.db :=
    if_pos rfl
  rw [hcleaned] at ht hjudged ⊢
  have ht₀ : telemetryOf p.py w.files r₀ = some t := ht
  have hfind₀ : (cleanDbOf w.db).find r₀.clean.id = some r₀.clean :=
    Table.find_eq_some.mpr ⟨List.mem_map_of_mem hr₀, rfl⟩
  unfold CapturedRow.cleaned at hjudged ⊢
  cases hfind : ((pipelineOn p w.files).run snapshotId maxReplays (cleanDbOf w.db)).1.db.find
      r₀.clean.id with
  | none =>
    rw [hfind] at hjudged
    exact hw r₀ hr₀ t ht₀ hjudged
  | some c =>
    rw [hfind] at hjudged
    show JudgedBy p t c
    rcases find_cleanRows _ _ hfind with hsame | ⟨row, hrow, hid, status, diagnostics, c', hv, rfl⟩
    · obtain rfl : r₀.clean = c := Option.some.inj (hfind₀.symm.trans hsame)
      exact hw r₀ hr₀ t ht₀ hjudged
    · obtain ⟨t', hload, halike⟩ := h row hrow r₀ hr₀ hid.symm t ht₀
      have hjudge : JudgedBy (pipelineOn p w.files) t' _ := judgedBy_of_verdict hload hv c'
      exact JudgedBy.alike hjudge halike.symm

end Steps

/-! ## One ghost -/

/-- A sample at rest. -/
def ghostSample : Json := .obj (sampleKeys.map fun key => (key, .int 0))

/-- The payload of the capture of a ghost on a map of the corpus. -/
def ghostEntries : Entries :=
  [("schema_version", .int 1), ("source_replay_id", .str "g"), ("sample_rate_hz", .int 10),
   ("samples", .arr [ghostSample]),
   ("extra", .obj [("map_file", .str (String.ofList (List.replicate 64 'a') ++ ".Map.Gbx"))])]

/-- Every text is that payload. -/
def ghostPython : SidecarPython := { emptySamplePython with loads := fun _ => .ok (.obj ghostEntries) }

def ghostPipeline : Pipeline := { emptySamplePipeline with py := ghostPython }

/-- The corpus has one map for every hash. -/
def ghostIngest : IngestWorld where
  sha256 _ := ""
  mapOfHash _ := some 1
  column _ := .ok none
  accepts _ := true

def ghostFiles (path : String) : SidecarFile :=
  if path = "c.telemetry.json" then .text "" else .missing

/-- Nothing captured so far. -/
def noCaptures : CaptureWorld where
  files _ := .missing
  db := AutoTable.empty

theorem judged_noCaptures (p : Pipeline) : AllJudgedByCapture p noCaptures := by
  intro r hr
  cases hr

/-- The ghost is captured and ingested, and then a snapshot is cleaned, or everything. -/
def ghostCommands (snapshotId : Option String) : List Command :=
  [.capture ghostFiles, .ingest ["c.telemetry.json"] "s" "1" false, .clean snapshotId none]

end TraxMania.Ingestion
