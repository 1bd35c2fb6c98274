import TraxMania.Replay.CleanPipeline

/-
  Which replays block the queue. What becomes of a replay depends on its own sidecars only, so a
  run gets through its queue exactly when every sidecar in it is one that is handled.
-/

namespace TraxMania.Replay

open TraxMania.Generation TraxMania.Generation.Llm Lib Lib.Outcome

/-! ## One replay -/

/-- A telemetry file that loads. -/
def TelemetryUsable (py : SidecarPython) : SidecarFile → Prop
  | .text content => ∃ entries, py.loads content = .ok (.obj entries) ∧
      truthy (item entries "samples") ∧ TelemetrySchema entries
  | _ => False

/-- `_breadcrumb_loader` and `_breadcrumb_rules` are there. -/
def Pipeline.usesBreadcrumbs (p : Pipeline) : Prop :=
  p.hasBreadcrumbLoader ∧ p.breadcrumbRules ≠ []

/-- The replay has a telemetry sidecar that loads. -/
def HasTelemetry (p : Pipeline) (row : ReplayRow) : Prop :=
  ∃ raw ∈ row.artifact, TelemetryUsable p.py (p.files (raw ++ ".telemetry.json"))

/-- The sidecars of a replay are handled: no loader lets an exception through, and no evidence of
    a rule holds a number that the `JSON` column refuses. -/
structure Handled (p : Pipeline) (row : ReplayRow) : Prop where
  telemetry : ∀ raw ∈ row.artifact, TelemetryHandled p.py (p.files (raw ++ ".telemetry.json"))
  evidence : ∀ t results, loadTelemetry p.py p.files row = .ok t →
    runRules p.rules p.thresholds t = .ok results → ∀ r ∈ results, storableEntries r.evidence
  breadcrumbs : ¬ HasTelemetry p row → p.usesBreadcrumbs → ∀ raw ∈ row.artifact,
    BreadcrumbsHandled p.py (p.files (raw ++ ".breadcrumbs.json"))
  crumbEvidence : ¬ HasTelemetry p row → p.usesBreadcrumbs → ∀ raw ∈ row.artifact,
    ∀ b results, loadBreadcrumbs p.py p.files raw = .ok b →
      runRules p.breadcrumbRules p.thresholds b = .ok results →
        ∀ r ∈ results, storableEntries r.evidence

theorem returns_loadTelemetry (p : Pipeline) (row : ReplayRow) :
    Returns (loadTelemetry p.py p.files row) ↔ HasTelemetry p row := by
  unfold loadTelemetry HasTelemetry
  cases hraw : row.artifact with
  | none => simp
  | some raw =>
    simp only [Option.mem_some_iff, exists_eq_left']
    cases p.files (raw ++ ".telemetry.json") with
    | missing => exact iff_of_false (not_returns_error _) id
    | unreadable => exact iff_of_false (not_returns_error _) id
    | notUtf8 => exact iff_of_false (not_returns_error _) id
    | text content =>
      simp only [readJson, TelemetryUsable]
      cases p.py.loads content with
      | error e => cases e <;> simp [returns_bind_iff]
      | ok payload =>
        rw [returns_bind_iff]
        simp only [Except.ok.injEq, exists_eq_left']
        cases payload with
        | obj entries =>
          simp only [Json.obj.injEq, exists_eq_left']
          split
          · next h => simp [h, returns_telemetryFromDict]
          · next h => simp [h]
        | null | bool _ | int _ | float _ | str _ | arr _ => simp

/-- What becomes of a replay: a status with its diagnostics, nothing when a rule raises. -/
abbrev Verdict := Option (CleanStatus × Json)

/-- The database takes the diagnostics. -/
def stored (status : CleanStatus) (diagnostics : Json) : Except Raised Verdict :=
  if storable diagnostics then .ok (some (status, diagnostics)) else .error .database

/-- The rules have run. -/
def ruled (py : SidecarPython) (signalSource : String) (extra : Entries) :
    Except String (List RuleResult) → Except Raised Verdict
  | .error _ => .ok none
  | .ok results =>
    stored (classify py results).status ((classify py results).payload signalSource extra)

section Verdicts

variable (p : Pipeline) (row : ReplayRow)

/-- The breadcrumbs of a replay whose telemetry does not load; `none` when there are none. -/
def crumbVerdict (reason : String) : Except Raised (Option Verdict) :=
  if !p.hasBreadcrumbLoader || p.breadcrumbRules.isEmpty then .ok none
  else
    match row.artifact with
    | none => .ok none
    | some raw =>
      match loadBreadcrumbs p.py p.files raw with
      | .error (.breadcrumbsLoad _) => .ok none
      | .error e => .error e
      | .ok breadcrumbs => (ruled p.py "breadcrumbs"
          [("telemetry_unavailable_reason", .str (reason.take 400).toString)]
          (runRules p.breadcrumbRules p.thresholds breadcrumbs)).map some

/-- What becomes of a replay, or the exception that leaves the loop. -/
def verdict : Except Raised Verdict :=
  match loadTelemetry p.py p.files row with
  | .error (.telemetryLoad detail) =>
    match crumbVerdict p row detail with
    | .error e => .error e
    | .ok (some v) => .ok v
    | .ok none => stored .rejected (unavailableDiagnostics detail)
  | .error e => .error e
  | .ok telemetry =>
    ruled p.py "telemetry" [] (runRules p.rules p.thresholds telemetry)

/-- The table after a verdict. -/
def Verdict.apply (v : Verdict) (db : CleanDb) : CleanDb :=
  match v with
  | none => db
  | some (status, diagnostics) =>
    db.update (fun r => r.id = row.id) (CleanRow.classified status p.cleanVersion diagnostics)
      (CleanRow.classified_id status p.cleanVersion diagnostics)

/-- A result of `cleanOne` agrees with a verdict. -/
def Agrees {α : Type} (v : Except Raised Verdict) (seen : Nat) (db : CleanDb)
    (r : CleanWorld × Except Raised α) : Prop :=
  r.1.stats.replaysSeen = seen ∧
    match v with
    | .error e => r.2 = .error e
    | .ok v => Returns r.2 ∧ r.1.db = v.apply p row db

theorem replaysSeen_bump (status : CleanStatus) (s : CleanStats) :
    (s.bump status).replaysSeen = s.replaysSeen := by
  cases status <;> rfl

theorem agrees_writeClassification (o : ClassificationOutcome) (signalSource : String)
    (extra : Entries) {count : CleanStats → CleanStats}
    (hcount : ∀ s, (count s).replaysSeen = s.replaysSeen) (w : CleanWorld) :
    Agrees p row (stored o.status (o.payload signalSource extra)) w.stats.replaysSeen w.db
      (writeClassification p row o signalSource extra count w) := by
  unfold writeClassification writeStatus stored
  split
  · exact ⟨(replaysSeen_bump _ _).trans (hcount _), returns_ok (), rfl⟩
  · exact ⟨rfl, rfl⟩

/-- `_try_breadcrumb_path` does what the verdict on the breadcrumbs says. -/
theorem tryBreadcrumbPath_spec (reason : String) (w : CleanWorld) :
    match crumbVerdict p row reason with
    | .error e => (tryBreadcrumbPath p row reason w).2 = .error e ∧
        (tryBreadcrumbPath p row reason w).1.stats.replaysSeen = w.stats.replaysSeen
    | .ok none => tryBreadcrumbPath p row reason w = (w, .ok false)
    | .ok (some v) => (tryBreadcrumbPath p row reason w).2 = .ok true ∧
        (tryBreadcrumbPath p row reason w).1.stats.replaysSeen = w.stats.replaysSeen ∧
        (tryBreadcrumbPath p row reason w).1.db = v.apply p row w.db := by
  unfold tryBreadcrumbPath crumbVerdict
  by_cases hoff : (!p.hasBreadcrumbLoader || p.breadcrumbRules.isEmpty) = true
  · rw [if_pos hoff, if_pos hoff]
  · rw [if_neg hoff, if_neg hoff]
    cases row.artifact with
    | none => rfl
    | some raw =>
      dsimp only
      cases loadBreadcrumbs p.py p.files raw with
      | error e => cases e <;> first | rfl | exact ⟨rfl, rfl⟩
      | ok breadcrumbs =>
        dsimp only
        cases runRules p.breadcrumbRules p.thresholds breadcrumbs with
        | error text => exact ⟨rfl, rfl, rfl⟩
        | ok results =>
          simp only [writeClassification, writeStatus, ruled, stored]
          by_cases hs : storable ((classify p.py results).payload "breadcrumbs"
              [("telemetry_unavailable_reason", .str (reason.take 400).toString)]) = true
          · simp only [if_pos hs]
            exact ⟨rfl, replaysSeen_bump _ _, rfl⟩
          · simp only [if_neg hs]
            exact ⟨rfl, trivial⟩

theorem agrees_rejectUnavailable (detail : String) (w : CleanWorld) :
    Agrees p row (stored .rejected (unavailableDiagnostics detail)) w.stats.replaysSeen w.db
      (rejectUnavailable p row detail w) := by
  unfold rejectUnavailable writeStatus stored
  split
  · exact ⟨rfl, returns_ok (), rfl⟩
  · exact ⟨rfl, rfl⟩

/-- `_clean_one` does what the verdict says, in whatever state it finds the database. -/
theorem agrees_cleanOne (w : CleanWorld) :
    Agrees p row (verdict p row) w.stats.replaysSeen w.db (cleanOne p row w) := by
  unfold cleanOne verdict
  cases loadTelemetry p.py p.files row with
  | ok telemetry =>
    dsimp only
    cases runRules p.rules p.thresholds telemetry with
    | error text => exact ⟨rfl, returns_ok (), rfl⟩
    | ok results => exact agrees_writeClassification p row _ _ _ (fun _ => rfl) w
  | error e =>
    cases e with
    | telemetryLoad detail =>
      dsimp only
      have hspec := tryBreadcrumbPath_spec p row detail
        { w with stats := { w.stats with loadFailures := w.stats.loadFailures + 1 } }
      cases hcrumbs : crumbVerdict p row detail with
      | error e =>
        rw [hcrumbs] at hspec
        simp only [hspec.1]
        exact ⟨hspec.2, rfl⟩
      | ok v =>
        cases v with
        | none =>
          rw [hcrumbs] at hspec
          simp only [hspec]
          exact agrees_rejectUnavailable p row detail _
        | some v =>
          rw [hcrumbs] at hspec
          simp only [hspec.1]
          exact ⟨hspec.2.1, returns_ok (), hspec.2.2⟩
    | _ => exact ⟨rfl, rfl⟩

end Verdicts

/-! ## The replays that are handled -/

theorem storableItems_eq {items : List Json} : storableItems items = items.all storable := by
  induction items with
  | nil => rw [storableItems, List.all_nil]
  | cons v items ih => rw [storableItems, List.all_cons, ih]

theorem storableEntries_append (entries extra : Entries) :
    storableEntries (entries ++ extra) = (storableEntries entries && storableEntries extra) := by
  induction entries with
  | nil => rw [List.nil_append, storableEntries, Bool.true_and]
  | cons kv entries ih =>
    obtain ⟨k, v⟩ := kv
    rw [List.cons_append, storableEntries, storableEntries, ih, Bool.and_assoc]

theorem storable_texts (texts : List String) : storable (.arr (texts.map .str)) = true := by
  rw [storable, storableItems_eq, List.all_map, List.all_eq_true]
  intro s _
  simp [storable]

theorem storable_result (r : RuleResult) : storable r.payload = storableEntries r.evidence := by
  unfold RuleResult.payload
  cases r.severity <;> simp [storable, storableEntries]

/-- The diagnostics can be stored when the evidence can. -/
theorem storable_payload {o : ClassificationOutcome} {signalSource : String} {extra : Entries}
    (hextra : storableEntries extra) : storable (o.payload signalSource extra) ↔
      ∀ r ∈ o.ruleResults, storableEntries r.evidence := by
  have hrules : storable (.arr (o.ruleResults.map RuleResult.payload)) =
      o.ruleResults.all fun r => storableEntries r.evidence := by
    rw [storable, storableItems_eq, List.all_map]
    exact congrArg o.ruleResults.all (funext storable_result)
  unfold ClassificationOutcome.payload
  rw [storable, storableEntries_append, hextra, Bool.and_true]
  simp only [storableEntries, storable_texts, hrules, Bool.and_true, Bool.true_and]
  simp [storable]

theorem returns_ruled {py : SidecarPython} {signalSource : String} {extra : Entries}
    {run : Except String (List RuleResult)} (hextra : storableEntries extra) :
    Returns (ruled py signalSource extra run) ↔
      ∀ results, run = .ok results → ∀ r ∈ results, storableEntries r.evidence := by
  cases run with
  | error text => exact iff_of_true (returns_ok none) fun results h => nomatch h
  | ok results =>
    have hpayload : storable ((classify py results).payload signalSource extra) ↔ _ :=
      storable_payload hextra
    simp only [ruled, stored, Except.ok.injEq, forall_eq']
    refine Iff.trans ?_ hpayload
    split
    · next h => exact iff_of_true (returns_ok _) h
    · next h => exact iff_of_false (not_returns_error _) h

theorem returns_unavailable (detail : String) :
    Returns (stored .rejected (unavailableDiagnostics detail)) := by
  have hstorable : storable (unavailableDiagnostics detail) = true := by
    simp [unavailableDiagnostics, storable, storableEntries, storableItems]
  rw [stored, if_pos hstorable]
  exact returns_ok _

section Handled

variable {p : Pipeline} {row : ReplayRow}

theorem returns_crumbVerdict (reason : String) : Returns (crumbVerdict p row reason) ↔
    (p.usesBreadcrumbs → ∀ raw ∈ row.artifact,
      BreadcrumbsHandled p.py (p.files (raw ++ ".breadcrumbs.json")) ∧
        ∀ b results, loadBreadcrumbs p.py p.files raw = .ok b →
          runRules p.breadcrumbRules p.thresholds b = .ok results →
            ∀ r ∈ results, storableEntries r.evidence) := by
  unfold crumbVerdict Pipeline.usesBreadcrumbs
  by_cases hoff : (!p.hasBreadcrumbLoader || p.breadcrumbRules.isEmpty) = true
  · rw [if_pos hoff]
    refine iff_of_true (returns_ok none) fun huses => ?_
    simp [huses.1, huses.2] at hoff
  · rw [if_neg hoff]
    have huses : p.hasBreadcrumbLoader = true ∧ p.breadcrumbRules ≠ [] := by
      simpa using hoff
    rw [forall_prop_of_true huses]
    cases hraw : row.artifact with
    | none => simp
    | some raw =>
      simp only [Option.mem_some_iff, forall_eq']
      rw [← within_loadBreadcrumbs]
      cases hload : loadBreadcrumbs p.py p.files raw with
      | error e =>
        cases e with
        | breadcrumbsLoad detail =>
          exact iff_of_true (returns_ok none) ⟨within_error.mpr ⟨_, rfl⟩, fun b results h => nomatch h⟩
        | _ =>
          exact iff_of_false (not_returns_error _) fun h => by
            obtain ⟨detail, hd⟩ := within_error.mp h.1
            cases hd
      | ok b =>
        have hmap : ∀ v : Except Raised Verdict, Returns (v.map some) ↔ Returns v := by
          intro v
          cases v with
          | ok v => exact iff_of_true (returns_ok _) (returns_ok v)
          | error e => exact iff_of_false (not_returns_error _) (not_returns_error e)
        dsimp only
        rw [hmap, returns_ruled (by simp [storableEntries, storable]), and_iff_right (within_ok b)]
        constructor
        · intro h b' results hb
          obtain rfl := Except.ok.inj hb
          exact h results
        · intro h results
          exact h b results rfl

/-- A replay has a verdict exactly when its sidecars are handled. -/
theorem returns_verdict_iff : Returns (verdict p row) ↔ Handled p row := by
  have htelemetry := within_loadTelemetry p.py p.files row
  have hhas := returns_loadTelemetry p row
  unfold verdict
  cases hload : loadTelemetry p.py p.files row with
  | ok t =>
    rw [hload] at htelemetry hhas
    have hready : HasTelemetry p row := hhas.mp (returns_ok t)
    refine (returns_ruled (by simp [storableEntries])).trans ?_
    constructor
    · intro hrules
      refine ⟨htelemetry.mp (within_ok t), fun t' results ht' => ?_, fun h => absurd hready h,
        fun h => absurd hready h⟩
      obtain rfl := Except.ok.inj (hload.symm.trans ht')
      exact hrules results
    · intro h results
      exact h.evidence t results hload
  | error e =>
    rw [hload] at htelemetry hhas
    have hnot : ¬ HasTelemetry p row := fun h => not_returns_error e (hhas.mpr h)
    have hnone : ∀ t results, loadTelemetry p.py p.files row = .ok t →
        runRules p.rules p.thresholds t = .ok results →
          ∀ r ∈ results, storableEntries r.evidence := by
      intro t results ht
      rw [hload] at ht
      cases ht
    cases e with
    | telemetryLoad detail =>
      have hhandled := htelemetry.mp (within_error.mpr ⟨detail, rfl⟩)
      dsimp only
      have hcrumbs : Returns (crumbVerdict p row detail) ↔ _ := returns_crumbVerdict detail
      have hreturns : Returns (match crumbVerdict p row detail with
          | .error e => .error e
          | .ok (some v) => .ok v
          | .ok none => stored .rejected (unavailableDiagnostics detail)) ↔
          Returns (crumbVerdict p row detail) := by
        cases crumbVerdict p row detail with
        | error e => exact iff_of_false (not_returns_error e) (not_returns_error e)
        | ok v =>
          cases v with
          | none => exact iff_of_true (returns_unavailable detail) (returns_ok none)
          | some v => exact iff_of_true (returns_ok v) (returns_ok (some v))
      rw [hreturns, hcrumbs]
      constructor
      · intro h
        exact ⟨hhandled, hnone, fun _ huses raw hraw => (h huses raw hraw).1,
          fun _ huses raw hraw => (h huses raw hraw).2⟩
      · intro h huses raw hraw
        exact ⟨h.breadcrumbs hnot huses raw hraw, h.crumbEvidence hnot huses raw hraw⟩
    | _ =>
      refine iff_of_false (not_returns_error _) fun h => ?_
      obtain ⟨detail, hd⟩ := within_error.mp (htelemetry.mpr h.telemetry)
      cases hd

end Handled

/-! ## The run -/

section Run

variable (p : Pipeline)

/-- No sidecar of the replay can be loaded. -/
def Unloadable (row : ReplayRow) : Prop :=
  ¬ Returns (loadTelemetry p.py p.files row) ∧
    (p.usesBreadcrumbs → ∀ raw ∈ row.artifact, ¬ Returns (loadBreadcrumbs p.py p.files raw))

/-- The run gets through its queue: it returns, it has examined every replay that it fetched, each
    of them is afterwards what its own sidecars make of it, and none that cannot be loaded is left
    unprocessed. -/
structure QueueAdvances (snapshotId : Option String) (maxReplays : Option Nat) (db : CleanDb) :
    Prop where
  returns : Returns (p.run snapshotId maxReplays db).2
  examined : (p.run snapshotId maxReplays db).1.stats.replaysSeen =
    (fetchUnprocessed snapshotId maxReplays db).length
  independent : ∀ row ∈ fetchUnprocessed snapshotId maxReplays db,
    (p.run snapshotId maxReplays db).1.db.find row.id = (cleanOne p row ⟨db, {}⟩).1.db.find row.id
  leaves : ∀ row ∈ fetchUnprocessed snapshotId maxReplays db, Unloadable p row →
    ∀ r ∈ (p.run snapshotId maxReplays db).1.db.find row.id, r.cleanStatus ≠ .unprocessed

/-- What a verdict does to the row that a lookup finds. -/
theorem find_apply (row : ReplayRow) (status : CleanStatus) (diagnostics : Json) (db : CleanDb)
    (id : Nat) : (Verdict.apply p row (some (status, diagnostics)) db).find id =
      (db.find id).map fun r =>
        if r.id = row.id then r.classified status p.cleanVersion diagnostics else r := by
  rw [Verdict.apply, Table.find_update]
  simp only [decide_eq_true_eq]

theorem find_apply_of_ne (row : ReplayRow) (v : Verdict) (db : CleanDb) {id : Nat}
    (h : row.id ≠ id) : (v.apply p row db).find id = db.find id := by
  cases v with
  | none => rfl
  | some v =>
    rw [find_apply]
    cases hr : db.find id with
    | none => rfl
    | some r =>
      have hid := (Table.find_eq_some.mp hr).2
      rw [Option.map_some, if_neg (by rw [hid]; exact Ne.symm h)]

/-- A verdict changes the row of its replay, whatever the others are. -/
theorem find_apply_congr (row : ReplayRow) (v : Verdict) {db db' : CleanDb}
    (h : db.find row.id = db'.find row.id) :
    (v.apply p row db).find row.id = (v.apply p row db').find row.id := by
  cases v with
  | none => exact h
  | some v => rw [find_apply, find_apply, h]

/-- The world in which the loop takes up its next replay. -/
def CleanWorld.seen (w : CleanWorld) : CleanWorld :=
  { w with stats := { w.stats with replaysSeen := w.stats.replaysSeen + 1 } }

/-- A replay without a verdict ends the loop. -/
theorem cleanRows_of_error {row : ReplayRow} {e : Raised} (hv : verdict p row = .error e)
    (rows : List ReplayRow) (w : CleanWorld) :
    (cleanOne p row w.seen).2 = .error e ∧
      cleanRows p (row :: rows) w = ((cleanOne p row w.seen).1, .error e) := by
  have hone := agrees_cleanOne p row w.seen
  rw [hv] at hone
  have hraised : (cleanOne p row w.seen).2 = .error e := hone.2
  refine ⟨hraised, ?_⟩
  rw [cleanRows]
  unfold CleanWorld.seen at hraised ⊢
  simp only [hraised]

/-- After a verdict the loop goes on, with the replay counted and the verdict written. -/
theorem cleanRows_of_ok {row : ReplayRow} {v : Verdict} (hv : verdict p row = .ok v)
    (rows : List ReplayRow) (w : CleanWorld) :
    cleanRows p (row :: rows) w = cleanRows p rows (cleanOne p row w.seen).1 ∧
      (cleanOne p row w.seen).1.stats.replaysSeen = w.stats.replaysSeen + 1 ∧
      (cleanOne p row w.seen).1.db = v.apply p row w.db := by
  have hone := agrees_cleanOne p row w.seen
  rw [hv] at hone
  obtain ⟨hseen, ⟨u, hu⟩, hdb⟩ := hone
  refine ⟨?_, hseen, hdb⟩
  rw [cleanRows]
  unfold CleanWorld.seen at hu ⊢
  simp only [hu]

/-- The loop over replays that all have a verdict. -/
theorem cleanRows_returns (rows : List ReplayRow) (w : CleanWorld)
    (hnodup : (rows.map ReplayRow.id).Nodup) (h : ∀ row ∈ rows, Returns (verdict p row)) :
    Returns (cleanRows p rows w).2 ∧
      (cleanRows p rows w).1.stats.replaysSeen = w.stats.replaysSeen + rows.length ∧
      (∀ row ∈ rows, ∀ v, verdict p row = .ok v →
        (cleanRows p rows w).1.db.find row.id = (v.apply p row w.db).find row.id) ∧
      ∀ id, (∀ row ∈ rows, row.id ≠ id) → (cleanRows p rows w).1.db.find id = w.db.find id := by
  induction rows generalizing w with
  | nil => exact ⟨returns_ok (), rfl, fun row hrow => (nomatch hrow), fun _ _ => rfl⟩
  | cons row rows ih =>
    rw [List.map_cons, List.nodup_cons] at hnodup
    obtain ⟨v, hv⟩ := h row List.mem_cons_self
    obtain ⟨hstep, hseen, hdb⟩ := cleanRows_of_ok p hv rows w
    obtain ⟨hret, hcount, hfind, hother⟩ := ih _ hnodup.2 fun row' hrow' =>
      h row' (List.mem_cons_of_mem _ hrow')
    have hne : ∀ row' ∈ rows, row'.id ≠ row.id := fun row' hrow' he =>
      hnodup.1 (he ▸ List.mem_map_of_mem hrow')
    rw [hstep]
    refine ⟨hret, ?_, fun row' hrow' v' hv' => ?_, fun id hid => ?_⟩
    · rw [hcount, hseen, List.length_cons]
      omega
    · rcases List.mem_cons.mp hrow' with rfl | hrow'
      · obtain rfl := Except.ok.inj (hv.symm.trans hv')
        rw [hother _ hne, hdb]
      · rw [hfind row' hrow' v' hv']
        refine find_apply_congr p row' v' ?_
        rw [hdb]
        exact find_apply_of_ne p row v w.db (Ne.symm (hne row' hrow'))
    · rw [hother id fun row' hrow' => hid row' (List.mem_cons_of_mem _ hrow'), hdb]
      exact find_apply_of_ne p row v w.db (hid row List.mem_cons_self)

/-- A replay without a verdict ends the loop. -/
theorem returns_verdict_of_cleanRows (rows : List ReplayRow) (w : CleanWorld)
    (h : Returns (cleanRows p rows w).2) : ∀ row ∈ rows, Returns (verdict p row) := by
  induction rows generalizing w with
  | nil => exact fun row hrow => nomatch hrow
  | cons row rows ih =>
    cases hv : verdict p row with
    | error e =>
      rw [(cleanRows_of_error p hv rows w).2] at h
      exact absurd h (not_returns_error e)
    | ok v =>
      rw [(cleanRows_of_ok p hv rows w).1] at h
      intro row' hrow'
      rcases List.mem_cons.mp hrow' with rfl | hrow'
      · exact ⟨v, hv⟩
      · exact ih _ h row' hrow'

theorem fetchUnprocessed_nodup (snapshotId : Option String) (limit : Option Nat) (db : CleanDb) :
    ((fetchUnprocessed snapshotId limit db).map ReplayRow.id).Nodup := by
  have hsorted : ((SortBy.sortBy CleanRow.id (db.rows.filter fun r =>
      r.cleanStatus = .unprocessed && snapshotId.all fun snapshot =>
        r.ingestionSnapshot = snapshot)).map CleanRow.id).Nodup :=
    ((SortBy.sortBy_perm _ _).map _).nodup_iff.mpr (db.nodup.sublist (List.filter_sublist.map _))
  unfold fetchUnprocessed
  simp only [List.map_map]
  cases limit with
  | none => exact hsorted
  | some n => exact hsorted.sublist ((List.take_sublist n _).map _)

/-- An unloadable replay with a verdict is rejected. -/
theorem verdict_of_unloadable {row : ReplayRow} {v : Verdict} (hrow : Unloadable p row)
    (hv : verdict p row = .ok v) : ∃ diagnostics, v = some (.rejected, diagnostics) := by
  unfold verdict at hv
  cases hload : loadTelemetry p.py p.files row with
  | ok t => exact absurd ⟨t, hload⟩ hrow.1
  | error e =>
    rw [hload] at hv
    cases e with
    | telemetryLoad detail =>
      dsimp only at hv
      have hnone : crumbVerdict p row detail = .ok none ∨
          ∃ e, crumbVerdict p row detail = .error e := by
        unfold crumbVerdict
        by_cases hoff : (!p.hasBreadcrumbLoader || p.breadcrumbRules.isEmpty) = true
        · exact .inl (if_pos hoff)
        · rw [if_neg hoff]
          cases hraw : row.artifact with
          | none => exact .inl rfl
          | some raw =>
            cases hcrumbs : loadBreadcrumbs p.py p.files raw with
            | ok b =>
              have huses : p.usesBreadcrumbs := by
                unfold Pipeline.usesBreadcrumbs
                simpa using hoff
              exact absurd ⟨b, hcrumbs⟩ (hrow.2 huses raw hraw)
            | error e =>
              simp only [hcrumbs]
              cases e <;> simp
      rcases hnone with hnone | ⟨e, he⟩
      · rw [hnone] at hv
        dsimp only [stored] at hv
        split at hv
        · exact ⟨_, (Except.ok.inj hv).symm⟩
        · cases hv
      · rw [he] at hv
        cases hv
    | _ => cases hv

/-- A run gets through its queue exactly when the sidecars of every replay in it are handled. -/
theorem queueAdvances_iff (snapshotId : Option String) (maxReplays : Option Nat) (db : CleanDb) :
    QueueAdvances p snapshotId maxReplays db ↔
      ∀ row ∈ fetchUnprocessed snapshotId maxReplays db, Handled p row := by
  constructor
  · intro h row hrow
    exact returns_verdict_iff.mp (returns_verdict_of_cleanRows p _ _ h.returns row hrow)
  · intro h
    have hverdicts : ∀ row ∈ fetchUnprocessed snapshotId maxReplays db, Returns (verdict p row) :=
      fun row hrow => returns_verdict_iff.mpr (h row hrow)
    obtain ⟨hret, hcount, hfind, -⟩ := cleanRows_returns p _ ⟨db, {}⟩
      (fetchUnprocessed_nodup snapshotId maxReplays db) hverdicts
    refine ⟨hret, hcount.trans (Nat.zero_add _), fun row hrow => ?_, fun row hrow hun r hr => ?_⟩
    · obtain ⟨v, hv⟩ := hverdicts row hrow
      have halone := agrees_cleanOne p row ⟨db, {}⟩
      rw [hv] at halone
      rw [halone.2.2]
      exact hfind row hrow v hv
    · obtain ⟨v, hv⟩ := hverdicts row hrow
      obtain ⟨diagnostics, rfl⟩ := verdict_of_unloadable p hun hv
      have hfinal := hfind row hrow _ hv
      rw [find_apply] at hfinal
      obtain ⟨old, hold, hr'⟩ := Option.map_eq_some_iff.mp (hfinal.symm.trans hr)
      have hid := (Table.find_eq_some.mp hold).2
      rw [if_pos hid] at hr'
      rw [← hr']
      exact fun he => nomatch he

end Run

/-! ## One sample without fields -/

/-- `json.loads` on one text. -/
def emptySamplePython : SidecarPython where
  loads _ := .ok (.obj [("samples", .arr [.obj []])])
  intOfText _ := none
  digest _ := 0
  decodeError _ := ""
  str _ := ""
  repr _ := ""
  pathText p := p
  pathName p := p

/-- A rule that everything passes. -/
def passRule : Rule ReplayTelemetry where
  name := "pass"
  defaultThresholds := Dict.empty
  evaluate _ _ := .ok ⟨"pass", "1", none, []⟩

/-- Replay 1 has the telemetry sidecar `{"samples": [{}]}`, no other replay has any. -/
def emptySamplePipeline : Pipeline where
  py := emptySamplePython
  files path := if path = "a.telemetry.json" then .text "\x7b\"samples\": [\x7b\x7d]\x7d" else .missing
  rules := [passRule]
  thresholds := Dict.empty
  cleanVersion := "1"
  hasBreadcrumbLoader := false
  breadcrumbRules := []
  rules_ne_nil := List.cons_ne_nil _ _

/-- An unprocessed replay. -/
def unprocessedRow (id : Nat) (path : String) : CleanRow :=
  ⟨id, 1, "s", some path, none, none, .unprocessed, none, none⟩

def twoReplays : CleanDb := ⟨[unprocessedRow 1 "a", unprocessedRow 2 "b"], by decide⟩

/-- The format error of the first replay's samples leaves the run. -/
theorem emptySample_blocks : ¬ QueueAdvances emptySamplePipeline none none twoReplays := by
  intro h
  have hraised : ∃ e, (emptySamplePipeline.run none none twoReplays).2 = .error e :=
    ⟨.telemetryFormat "missing required top-level field 'schema_version'", by decide +kernel⟩
  obtain ⟨e, he⟩ := hraised
  have hreturns := h.returns
  rw [he] at hreturns
  exact not_returns_error e hreturns

end TraxMania.Replay
