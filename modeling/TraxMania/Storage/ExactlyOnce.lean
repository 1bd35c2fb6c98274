import TraxMania.Storage.MigrationFaults

/-
  Which statements have taken effect after the first run of the runner that returns: all of them
  exactly once and in order, if and only if no run before it was interrupted in a file of which
  something, but not all, had been committed by then.
-/

namespace TraxMania.Storage

open Lib Lib.PyText Lib.Txn

/-! ## Where a run is interrupted -/

/-- The interruption of a run that applies the files. -/
def interruptionIn : List MigrationFile → Faults → Option Interruption
  | [], _ => none
  | f :: files, faults =>
    if f.statements = [] then none
    else
      match cutoff (f.statements.length + 2) faults with
      | some (position, fault) => some ⟨f, position, fault⟩
      | none => interruptionIn files (faults.drop (f.statements.length + 2))

/-- A read comes first. -/
def afterRead (next : Faults → Option Interruption) (faults : Faults) : Option Interruption :=
  match cutoff 1 faults with
  | some _ => none
  | none => next (faults.drop 1)

/-- The files without a row. -/
def MigrationDb.unrecorded (d : MigrationDb) (files : List MigrationFile) : List MigrationFile :=
  files.filter fun f => f.filename ∉ d.rows.map Prod.fst

/-- The interruption of a run on the database `d`, if a fault strikes it in a file. -/
def interruption (files : List MigrationFile) (d : MigrationDb) : Faults → Option Interruption :=
  afterRead fun faults =>
    match d.applied, files with
    | some _, files => afterRead (interruptionIn (d.unrecorded files)) faults
    | none, [] => none
    | none, bootstrap :: remaining =>
      if bootstrap.filename ≠ bootstrapName ∨ bootstrap.statements = [] then none
      else
        match interruptionIn [bootstrap] faults with
        | some i => some i
        | none =>
          afterRead (interruptionIn remaining) (faults.drop (bootstrap.statements.length + 2))

/-- How a run goes that has the files `todo` to apply: it applies the first of them, and what else
    it leaves is of a file in which it is interrupted. When it returns it has applied them all. -/
def Outcome (sql : Sql) (sha256 : Text → Text) (todo : List MigrationFile)
    (cut : Option Interruption) (d : MigrationDb) {α : Type}
    (run : Except RunnerError α × Session RunnerError MigrationDb) : Prop :=
  ∃ now extra, now <+: todo ∧ Progress sha256 now extra d run.2.committed ∧
    (extra = [] ↔ ∀ i, cut = some i → i.Harmless sql) ∧
      ∀ a, run.1 = .ok a → extra = [] ∧ now = todo

section

variable {sql : Sql} {sha256 : Text → Text} {α : Type} {d : MigrationDb}

/-- A run that raises without a fault in a file. -/
theorem outcome_of_raise {todo : List MigrationFile}
    {run : Except RunnerError α × Session RunnerError MigrationDb} {e : RunnerError}
    (hraise : run.1 = .error e) (hcommitted : run.2.committed = d) :
    Outcome sql sha256 todo none d run := by
  refine ⟨[], [], List.nil_prefix, ?_, iff_of_true rfl nofun, ?_⟩
  · rw [hcommitted]
    exact progress_refl d
  · intro a ha
    rw [hraise] at ha
    cases ha

theorem Progress.cons {f : MigrationFile} {now : List MigrationFile} {extra : List Effect}
    {d₁ d₂ : MigrationDb} (hf : Progress sha256 [f] [] d d₁) (h : Progress sha256 now extra d₁ d₂) :
    Progress sha256 (f :: now) extra d d₂ := by
  constructor
  · rw [h.effects, hf.effects]
    simp
  · rw [h.rows, hf.rows]
    simp

/-- One file applied, then the others. -/
theorem outcome_cons {f : MigrationFile} {todo : List MigrationFile} {cut : Option Interruption}
    {d₁ : MigrationDb} {run : Except RunnerError α × Session RunnerError MigrationDb}
    (hf : Progress sha256 [f] [] d d₁) (h : Outcome sql sha256 todo cut d₁ run) :
    Outcome sql sha256 (f :: todo) cut d run := by
  obtain ⟨now, extra, hprefix, hprogress, hiff, hok⟩ := h
  refine ⟨f :: now, extra, ?_, hf.cons hprogress, hiff, ?_⟩
  · exact (List.prefix_cons_inj f).mpr hprefix
  · intro a ha
    obtain ⟨hextra, hnow⟩ := hok a ha
    exact ⟨hextra, by rw [hnow]⟩

theorem notMem_fst_of_lookup {rows : List (Text × Text)} {k : Text} :
    rows.lookup k = none ↔ k ∉ rows.map Prod.fst := by
  rw [List.lookup_eq_none_iff]
  simp only [List.mem_map, not_exists, not_and]
  constructor
  · intro h row hrow heq
    have hne := h row hrow
    simp [heq] at hne
  · intro h row hrow
    simpa using fun heq => h row hrow heq.symm

theorem applyAndRecord_of_nil (sql : Sql) (sha256 : Text → Text) {f : MigrationFile}
    (hnil : f.statements = []) (s : Session RunnerError MigrationDb) :
    perform (applyAndRecord sql sha256 f) s =
      (.error (.migration (.noStatements f.filename)), s) := by
  rw [applyAndRecord, perform_bind, applyOne, if_pos hnil]
  rfl

/-- One file is applied and recorded, unless a fault strikes in it; then `next` goes on. -/
theorem outcome_applyAndRecord {f : MigrationFile} {todo : List MigrationFile}
    {s : Session RunnerError MigrationDb} {next : Unit → Conn RunnerError MigrationDb α}
    {cut : Option Interruption} (hs : Rest d s) (hready : Ready sql f d)
    (hne : f.statements ≠ [])
    (hfault : ∀ p fault, cutoff (f.statements.length + 2) s.faults = some (p, fault) →
      cut = some ⟨f, p, fault⟩)
    (hnext : ∀ d' s', cutoff (f.statements.length + 2) s.faults = none → Rest d' s' →
      s'.faults = s.faults.drop (f.statements.length + 2) → d'.applied.isSome →
      Progress sha256 [f] [] d d' → Outcome sql sha256 todo cut d' (perform (next ()) s')) :
    Outcome sql sha256 (f :: todo) cut d (perform (applyAndRecord sql sha256 f >>= next) s) := by
  rw [perform_bind]
  cases hcut : cutoff (f.statements.length + 2) s.faults with
  | some c =>
      obtain ⟨e, s', now, extra, hrun, hprefix, hprogress, hiff⟩ :=
        applyAndRecord_of_some sha256 hs hready hne hcut
      rw [hrun, hfault c.1 c.2 hcut]
      refine ⟨now, extra, hprefix.trans ?_, hprogress, ?_, nofun⟩
      · exact (List.prefix_cons_inj f).mpr List.nil_prefix
      · rw [hiff]
        simp
  | none =>
      obtain ⟨d', s', hrun, hs', hfaults, htable, hprogress⟩ :=
        applyAndRecord_of_none sha256 hs hready hne hcut
      rw [hrun]
      exact outcome_cons hprogress (hnext d' s' hcut hs' hfaults htable hprogress)

/-- A file without a row has none after another file has been recorded. -/
theorem notMem_rows_of_progress {f g : MigrationFile} {d' : MigrationDb}
    (hprogress : Progress sha256 [f] [] d d') (hold : g.filename ∉ d.rows.map Prod.fst)
    (hne : g.filename ≠ f.filename) : g.filename ∉ d'.rows.map Prod.fst := by
  rw [hprogress.rows, List.map_append, List.mem_append]
  rintro (hmem | hmem)
  · exact hold hmem
  · exact hne (by simpa [MigrationFile.row] using hmem)

/-! ## One run -/

/-- The loop over the files that remain; `applied` is what has been read of the table. -/
theorem applyRemaining_outcome (applied : List (Text × Text)) (files : List MigrationFile) :
    ∀ (d : MigrationDb) (s : Session RunnerError MigrationDb) (appliedNew : List Text),
      Rest d s → d.applied.isSome → (files.map MigrationFile.filename).Nodup →
      (∀ f ∈ files, ∀ stmt ∈ f.statements, ∀ table, sql.records stmt (some table) = some table) →
      (∀ f ∈ files, ∀ stmt ∈ f.statements, sql.records stmt none = none ∨ sql.Creates stmt) →
      (∀ f ∈ files, applied.lookup f.filename = none → f.filename ∉ d.rows.map Prod.fst) →
      (∀ f ∈ files, ∀ h, applied.lookup f.filename = some h → h = sha256 f.content) →
      Outcome sql sha256 (files.filter fun f => (applied.lookup f.filename).isNone)
        (interruptionIn (files.filter fun f => (applied.lookup f.filename).isNone) s.faults) d
        (perform (applyRemaining sql sha256 applied files appliedNew) s) := by
  induction files with
  | nil =>
      intro d s appliedNew hs _ _ _ _ _ _
      refine ⟨[], [], List.nil_prefix, ?_, iff_of_true rfl nofun, fun a _ => ⟨rfl, rfl⟩⟩
      rw [applyRemaining, perform_pure, hs.committed]
      exact progress_refl d
  | cons f files ih =>
      intro d s appliedNew hs htable hnodup hkeeps hcreates hfresh hhash
      obtain ⟨hnotmem, hnodup'⟩ := List.nodup_cons.mp hnodup
      have hkeeps' := fun g hg => hkeeps g (List.mem_cons_of_mem f hg)
      have hcreates' := fun g hg => hcreates g (List.mem_cons_of_mem f hg)
      have hfresh' := fun g hg => hfresh g (List.mem_cons_of_mem f hg)
      have hhash' := fun g hg => hhash g (List.mem_cons_of_mem f hg)
      cases hlook : applied.lookup f.filename with
      | some stored =>
          have hstored : stored = sha256 f.content := hhash f List.mem_cons_self stored hlook
          rw [List.filter_cons_of_neg (by simp [hlook]), applyRemaining, hlook]
          simp only
          rw [if_neg (not_not.mpr hstored)]
          exact ih d s appliedNew hs htable hnodup' hkeeps' hcreates' hfresh' hhash'
      | none =>
          have hready : Ready sql f d := ⟨hkeeps f List.mem_cons_self,
            hcreates f List.mem_cons_self, .inl htable, hfresh f List.mem_cons_self hlook⟩
          rw [List.filter_cons_of_pos (by simp [hlook]), applyRemaining, hlook, interruptionIn]
          simp only
          by_cases hne : f.statements = []
          · rw [if_pos hne, perform_bind, applyAndRecord_of_nil sql sha256 hne]
            exact outcome_of_raise rfl hs.committed
          · rw [if_neg hne]
            apply outcome_applyAndRecord hs hready hne
            · intro p fault hcut
              rw [hcut]
            · intro d' s' hcut hs' hfaults htable' hprogress
              rw [hcut, ← hfaults]
              apply ih d' s' _ hs' htable' hnodup' hkeeps' hcreates' _ hhash'
              intro g hg hnone
              apply notMem_rows_of_progress hprogress (hfresh' g hg hnone)
              exact fun heq => hnotmem (heq ▸ List.mem_map_of_mem hg)

/-- The table is read, and the files without a row are applied. -/
theorem applyRest_outcome (sha256 : Text → Text) {files : List MigrationFile}
    {s : Session RunnerError MigrationDb}
    (appliedNew : List Text) (hs : Rest d s) (htable : d.applied.isSome)
    (hnodup : (files.map MigrationFile.filename).Nodup)
    (hkeeps : ∀ f ∈ files, ∀ stmt ∈ f.statements, ∀ table,
      sql.records stmt (some table) = some table)
    (hcreates : ∀ f ∈ files, ∀ stmt ∈ f.statements,
      sql.records stmt none = none ∨ sql.Creates stmt)
    (hhash : ∀ f ∈ files, ∀ h, d.rows.lookup f.filename = some h → h = sha256 f.content) :
    Outcome sql sha256 (d.unrecorded files)
      (afterRead (interruptionIn (d.unrecorded files)) s.faults) d
      (perform (appliedMigrations >>= fun applied =>
        applyRemaining sql sha256 applied files appliedNew) s) := by
  have hunrecorded : d.unrecorded files =
      files.filter fun f => (d.rows.lookup f.filename).isNone := by
    apply List.filter_congr
    intro f _
    rw [Bool.eq_iff_iff, decide_eq_true_iff, Option.isNone_iff_eq_none, notMem_fst_of_lookup]
  unfold afterRead appliedMigrations
  cases hread : cutoff 1 s.faults with
  | some c =>
      obtain ⟨s', hrun, hcommitted⟩ := perform_select_of_some
        (fun d : MigrationDb => (d.applied.isSome, d.rows)) hs hread
      rw [perform_bind, perform_bind, hrun]
      exact outcome_of_raise rfl hcommitted
  | none =>
      obtain ⟨s', hrun, hs', hfaults⟩ := perform_select_of_none
        (fun d : MigrationDb => (d.applied.isSome, d.rows)) hs hread
      rw [perform_bind, perform_bind, hrun]
      simp only [htable, if_true, perform_pure]
      rw [hunrecorded, ← hfaults]
      apply applyRemaining_outcome d.rows files d s' appliedNew hs' htable hnodup hkeeps hcreates
      · intro f _ hnone
        exact notMem_fst_of_lookup.mp hnone
      · exact hhash

theorem interruption_nil (d : MigrationDb) (faults : Faults) : interruption [] d faults = none := by
  have hread : ∀ next : Faults → Option Interruption, (∀ faults, next faults = none) →
      ∀ faults, afterRead next faults = none := by
    intro next hnext faults
    unfold afterRead
    split
    · rfl
    · exact hnext _
  apply hread
  intro faults
  cases d.applied with
  | none => rfl
  | some table =>
      apply hread
      intro faults
      rfl

/-- A file that has a row has the hash of its content in it. -/
theorem hash_of_lookup {files done : List MigrationFile}
    (hnodup : (files.map MigrationFile.filename).Nodup)
    (hrows : d.rows = done.map (MigrationFile.row sha256)) (hdone : ∀ f ∈ done, f ∈ files)
    {f : MigrationFile} (hf : f ∈ files) {h : Text} (hlook : d.rows.lookup f.filename = some h) :
    h = sha256 f.content := by
  obtain ⟨before, after, hsplit, -⟩ := List.lookup_eq_some_iff.mp hlook
  have hmem : (f.filename, h) ∈ done.map (MigrationFile.row sha256) := by
    rw [← hrows, hsplit]
    simp
  obtain ⟨g, hg, hrow⟩ := List.mem_map.mp hmem
  obtain ⟨hname, hhash⟩ := Prod.mk.inj hrow
  have hsame : g = f := List.inj_on_of_nodup_map hnodup (hdone g hg) hf hname
  rw [← hhash, hsame]

/-- The first run: the bootstrap creates the table. -/
theorem applyBootstrap_outcome {bootstrap : MigrationFile} {remaining : List MigrationFile}
    (hnodup : ((bootstrap :: remaining).map MigrationFile.filename).Nodup)
    (hleaves : sql.LeavesRecords (bootstrap :: remaining)) (hnone : d.applied = none)
    {s : Session RunnerError MigrationDb} (hs : Rest d s) :
    Outcome sql sha256 (bootstrap :: remaining)
      (if bootstrap.filename ≠ bootstrapName ∨ bootstrap.statements = [] then none
      else
        match interruptionIn [bootstrap] s.faults with
        | some i => some i
        | none =>
          afterRead (interruptionIn remaining) (s.faults.drop (bootstrap.statements.length + 2)))
      d (perform (applyBootstrap sql sha256 (bootstrap :: remaining) >>= fun x =>
        appliedMigrations >>= fun applied => applyRemaining sql sha256 applied x.2 x.1) s) := by
  rw [applyBootstrap, perform_bind]
  by_cases hname : bootstrap.filename ≠ bootstrapName
  · rw [if_pos hname, if_pos (.inl hname)]
    exact outcome_of_raise rfl hs.committed
  · rw [if_neg hname, ← perform_bind, bind_assoc]
    by_cases hne : bootstrap.statements = []
    · rw [if_pos (.inr hne), perform_bind, applyAndRecord_of_nil sql sha256 hne]
      exact outcome_of_raise rfl hs.committed
    · rw [if_neg (not_or.mpr ⟨hname, hne⟩)]
      have hempty : d.rows = [] := by
        unfold MigrationDb.rows
        rw [hnone]
      have hready : Ready sql bootstrap d := by
        refine ⟨hleaves.keeps _ List.mem_cons_self, hleaves.creates _ List.mem_cons_self, .inr ?_,
          ?_⟩
        · exact (hleaves.bootstrap bootstrap rfl).resolve_left hne
        · rw [hempty]
          simp
      simp only [interruptionIn, if_neg hne]
      apply outcome_applyAndRecord hs hready hne
      · intro p fault hcut
        rw [hcut]
      · intro d' s' hcut hs' hfaults htable hprogress
        rw [hcut, ← hfaults]
        obtain ⟨hnotmem, hnodup'⟩ := List.nodup_cons.mp hnodup
        have hlook : ∀ f ∈ remaining, f.filename ∉ d'.rows.map Prod.fst := by
          intro f hf
          apply notMem_rows_of_progress hprogress
          · rw [hempty]
            simp
          · exact fun heq => hnotmem (heq ▸ List.mem_map_of_mem hf)
        have htodo : d'.unrecorded remaining = remaining := by
          unfold MigrationDb.unrecorded
          rw [List.filter_eq_self]
          intro f hf
          exact decide_eq_true (hlook f hf)
        have hrest := applyRest_outcome sha256 [bootstrap.filename] hs' htable hnodup'
          (fun f hf => hleaves.keeps f (List.mem_cons_of_mem _ hf))
          (fun f hf => hleaves.creates f (List.mem_cons_of_mem _ hf))
          (fun f hf h hsome => by
            rw [notMem_fst_of_lookup.mpr (hlook f hf)] at hsome
            cases hsome)
        rw [htodo] at hrest
        exact hrest

/-- A run on a database in which the rows are those of some of the files. -/
theorem applyDiscovered_outcome {files done : List MigrationFile}
    (hnodup : (files.map MigrationFile.filename).Nodup) (hleaves : sql.LeavesRecords files)
    (hrows : d.rows = done.map (MigrationFile.row sha256)) (hdone : ∀ f ∈ done, f ∈ files)
    {s : Session RunnerError MigrationDb} (hs : Rest d s) :
    Outcome sql sha256 (d.unrecorded files) (interruption files d s.faults) d
      (perform (applyDiscovered sql sha256 files) s) := by
  unfold applyDiscovered
  by_cases hfiles : files = []
  · subst hfiles
    rw [if_pos rfl, interruption_nil]
    refine ⟨[], [], List.nil_prefix, ?_, iff_of_true rfl nofun, fun a _ => ⟨rfl, rfl⟩⟩
    rw [perform_pure, hs.committed]
    exact progress_refl d
  · rw [if_neg hfiles, perform_bind, interruption, afterRead, schemaMigrationsExists]
    cases hread : cutoff 1 s.faults with
    | some c =>
        obtain ⟨s', hrun, hcommitted⟩ :=
          perform_select_of_some (fun d : MigrationDb => d.applied.isSome) hs hread
        rw [hrun]
        exact outcome_of_raise rfl hcommitted
    | none =>
        obtain ⟨s', hrun, hs', hfaults⟩ :=
          perform_select_of_none (fun d : MigrationDb => d.applied.isSome) hs hread
        rw [hrun, ← hfaults]
        cases happlied : d.applied with
        | some table =>
            have htable : d.applied.isSome := by
              rw [happlied]
              rfl
            have hrest := applyRest_outcome sha256 [] hs' htable hnodup hleaves.keeps
              hleaves.creates (fun f hf h hlook => hash_of_lookup hnodup hrows hdone hf hlook)
            exact hrest
        | none =>
            obtain ⟨bootstrap, remaining, rfl⟩ := List.exists_cons_of_ne_nil hfiles
            have hempty : d.rows = [] := by
              unfold MigrationDb.rows
              rw [happlied]
            have htodo : d.unrecorded (bootstrap :: remaining) = bootstrap :: remaining := by
              unfold MigrationDb.unrecorded
              rw [List.filter_eq_self]
              intro f _
              rw [hempty]
              rfl
            rw [htodo]
            exact applyBootstrap_outcome hnodup hleaves happlied hs'

end

/-! ## Every sequence of runs -/

section

variable (sql : Sql) (sha256 : Text → Text) (dir : Option MigrationsDir)

/-- The database before the first run. -/
def MigrationDb.fresh : MigrationDb := ⟨[], none⟩

/-- The database after the first of the runs that returns. -/
def firstReturn : MigrationDb → List Faults → Option MigrationDb
  | _, [] => none
  | d, run :: runs =>
    match migrate sql sha256 dir d run with
    | (.ok _, d') => some d'
    | (.error _, d') => firstReturn d' runs

/-- Every run, up to the first that returns, is interrupted where it does no harm, if at all. -/
def RunsHarmless (files : List MigrationFile) : MigrationDb → List Faults → Prop
  | _, [] => True
  | d, run :: runs =>
    (∀ i, interruption files d run = some i → i.Harmless sql) ∧
      match migrate sql sha256 dir d run with
      | (.ok _, _) => True
      | (.error _, d') => RunsHarmless files d' runs

end

section

variable {sql : Sql} {sha256 : Text → Text} {dir : Option MigrationsDir}
  {files : List MigrationFile}

/-- The files `done` have a row, and the files `todo` do not. -/
structure Split (sha256 : Text → Text) (files done todo : List MigrationFile) (d : MigrationDb) :
    Prop where
  files : files = done ++ todo
  rows : d.rows = done.map (MigrationFile.row sha256)

theorem Split.unrecorded {done todo : List MigrationFile} {d : MigrationDb}
    (h : Split sha256 files done todo d) (hnodup : (files.map MigrationFile.filename).Nodup) :
    d.unrecorded files = todo := by
  have hnames : d.rows.map Prod.fst = done.map MigrationFile.filename := by
    rw [h.rows, List.map_map]
    rfl
  rw [h.files, List.map_append, List.nodup_append] at hnodup
  obtain ⟨-, -, hapart⟩ := hnodup
  unfold MigrationDb.unrecorded
  rw [hnames, h.files, List.filter_append]
  have hdone : done.filter (fun f => f.filename ∉ done.map MigrationFile.filename) = [] := by
    rw [List.filter_eq_nil_iff]
    intro f hf
    simpa using ⟨f, hf, rfl⟩
  have htodo : todo.filter (fun f => f.filename ∉ done.map MigrationFile.filename) = todo := by
    rw [List.filter_eq_self]
    intro f hf
    apply decide_eq_true
    intro hmem
    exact hapart _ hmem _ (List.mem_map_of_mem hf) rfl
  rw [hdone, htodo, List.nil_append]

/-- What a run makes of the database. -/
theorem migrate_outcome (hfiles : discoverMigrations dir = .ok files)
    (hleaves : sql.LeavesRecords files) {done todo : List MigrationFile} {d : MigrationDb}
    (h : Split sha256 files done todo d) (run : Faults) :
    ∃ now rest extra, todo = now ++ rest ∧
      Split sha256 files (done ++ now) rest (migrate sql sha256 dir d run).2 ∧
      (migrate sql sha256 dir d run).2.effects =
        d.effects ++ now.flatMap MigrationFile.effects ++ extra ∧
      (extra = [] ↔ ∀ i, interruption files d run = some i → i.Harmless sql) ∧
      ∀ names, (migrate sql sha256 dir d run).1 = .ok names → extra = [] ∧ rest = [] := by
  have hnodup := filenames_nodup hfiles
  have hrun : applyPending sql sha256 dir = applyDiscovered sql sha256 files := by
    unfold applyPending
    rw [hfiles]
  have hsub : ∀ f ∈ done, f ∈ files := by
    intro f hf
    rw [h.files]
    exact List.mem_append_left _ hf
  have houtcome := applyDiscovered_outcome hnodup hleaves h.rows hsub (rest_start d run)
  rw [h.unrecorded hnodup, ← hrun] at houtcome
  obtain ⟨now, extra, ⟨rest, hrest⟩, hprogress, hiff, hok⟩ := houtcome
  refine ⟨now, rest, extra, hrest.symm, ⟨?_, ?_⟩, hprogress.effects, hiff, ?_⟩
  · rw [h.files, ← hrest, List.append_assoc]
  · rw [List.map_append, ← h.rows]
    exact hprogress.rows
  · intro names hnames
    obtain ⟨hextra, hnow⟩ := hok names hnames
    refine ⟨hextra, ?_⟩
    rw [hnow] at hrest
    exact List.append_right_eq_self.mp hrest

/-- An effect too many stays one too many. -/
theorem longer_of_longer (hfiles : discoverMigrations dir = .ok files)
    (hleaves : sql.LeavesRecords files) (runs : List Faults) :
    ∀ (done todo : List MigrationFile) (d d' : MigrationDb), Split sha256 files done todo d →
      (done.flatMap MigrationFile.effects).length < d.effects.length →
      firstReturn sql sha256 dir d runs = some d' →
      (files.flatMap MigrationFile.effects).length < d'.effects.length := by
  induction runs with
  | nil =>
      intro done todo d d' _ _ hreturn
      cases hreturn
  | cons run runs ih =>
      intro done todo d d' hsplit hlong hreturn
      obtain ⟨now, rest, extra, -, hsplit', heffects, -, hok⟩ :=
        migrate_outcome hfiles hleaves hsplit run
      have hlong' : ((done ++ now).flatMap MigrationFile.effects).length <
          (migrate sql sha256 dir d run).2.effects.length := by
        rw [heffects, List.flatMap_append]
        simp only [List.length_append]
        omega
      unfold firstReturn at hreturn
      cases hrun : migrate sql sha256 dir d run with
      | mk result d₁ =>
          rw [hrun] at hreturn hsplit' hlong' hok
          cases result with
          | error e => exact ih _ _ d₁ d' hsplit' hlong' hreturn
          | ok names =>
              obtain rfl := Option.some.inj hreturn
              obtain ⟨-, hrest⟩ := hok names rfl
              have hall : files = done ++ now := by
                rw [hsplit'.files, hrest, List.append_nil]
              rw [hall]
              exact hlong'

theorem effects_firstReturn_iff (hfiles : discoverMigrations dir = .ok files)
    (hleaves : sql.LeavesRecords files) (runs : List Faults) :
    ∀ (done todo : List MigrationFile) (d d' : MigrationDb), Split sha256 files done todo d →
      d.effects = done.flatMap MigrationFile.effects →
      firstReturn sql sha256 dir d runs = some d' →
      (d'.effects = files.flatMap MigrationFile.effects ↔
        RunsHarmless sql sha256 dir files d runs) := by
  induction runs with
  | nil =>
      intro done todo d d' _ _ hreturn
      cases hreturn
  | cons run runs ih =>
      intro done todo d d' hsplit hexact hreturn
      obtain ⟨now, rest, extra, -, hsplit', heffects, hiff, hok⟩ :=
        migrate_outcome hfiles hleaves hsplit run
      rw [hexact, ← List.flatMap_append] at heffects
      unfold firstReturn at hreturn
      unfold RunsHarmless
      rw [← hiff]
      cases hrun : migrate sql sha256 dir d run with
      | mk result d₁ =>
          rw [hrun] at hreturn hsplit' heffects hok
          cases result with
          | error e =>
              simp only at hreturn ⊢
              by_cases hextra : extra = []
              · rw [hextra, List.append_nil] at heffects
                rw [ih _ _ d₁ d' hsplit' heffects hreturn]
                exact (and_iff_right hextra).symm
              · apply iff_of_false
                · intro heq
                  have hpos : 0 < extra.length := List.length_pos_of_ne_nil hextra
                  have hlong : ((done ++ now).flatMap MigrationFile.effects).length <
                      d₁.effects.length := by
                    rw [heffects]
                    simp only [List.length_append]
                    omega
                  have hlonger :=
                    longer_of_longer hfiles hleaves runs _ _ d₁ d' hsplit' hlong hreturn
                  rw [heq] at hlonger
                  exact lt_irrefl _ hlonger
                · intro hharmless
                  exact hextra hharmless.1
          | ok names =>
              obtain rfl := Option.some.inj hreturn
              obtain ⟨hextra, hrest⟩ := hok names rfl
              apply iff_of_true
              · rw [heffects, hextra, hsplit'.files, hrest, List.append_nil, List.append_nil]
              · exact ⟨hextra, trivial⟩

end

/-! ## A file that fails half way -/

/-- MariaDB for the files below. -/
def plainSql : Sql where
  isDdl stmt := "CREATE".toList.isPrefixOf stmt || "ALTER".toList.isPrefixOf stmt
  records stmt table :=
    if "CREATE TABLE IF NOT EXISTS schema_migrations".toList.isPrefixOf stmt then
      some (table.getD Table.empty)
    else table

/-- The bootstrap, and a file of two statements. -/
def twoFiles : List MigrationFile :=
  [⟨bootstrapName, "CREATE TABLE IF NOT EXISTS schema_migrations (id INT);".toList⟩,
    ⟨"001_a.sql".toList, "ALTER TABLE t ADD a INT; ALTER TABLE t ADD b INT;".toList⟩]

def twoFilesDir : MigrationsDir where
  entries := twoFiles.map fun f => ⟨f.filename, true, some f.content⟩
  nodup := by decide

theorem leavesRecords_twoFiles : plainSql.LeavesRecords twoFiles := by
  refine ⟨?_, ?_, ?_⟩
  · intro f _ stmt _ table
    simp only [plainSql]
    split
    · rfl
    · rfl
  · intro f _ stmt _
    unfold Sql.Creates
    simp only [plainSql]
    split
    · exact .inr rfl
    · exact .inl rfl
  · intro f hf
    obtain rfl := Option.some.inj hf
    right
    refine ⟨"CREATE TABLE IF NOT EXISTS schema_migrations (id INT)".toList, by decide, ?_⟩
    rfl

theorem discover_twoFiles : discoverMigrations (some twoFilesDir) = .ok twoFiles := by
  rfl

/-- The first run fails at the statement after `n` requests, the second at none. -/
def failsOnceAfter (n : Nat) : List Faults :=
  [List.replicate n none ++ [some (.fails (.mySql "Lock wait timeout exceeded".toList) false)], []]

end TraxMania.Storage
