import TraxMania.Storage.Migrations

/-
  What a fault leaves of a migration: all of it with its record, nothing of it, or some of its
  effects without the record. DDL commits implicitly; the rollback of the handler cannot undo it.
-/

namespace TraxMania.Storage

open Lib Lib.PyText Lib.Txn

abbrev Faults := List (Option (Fault RunnerError))

/-! ## Statements that leave the table of the runner alone -/

/-- The effects of the statements of a file, once each and in order. -/
def MigrationFile.effects (f : MigrationFile) : List Effect :=
  (List.range f.statements.length).map fun position => ⟨f.filename, position⟩

/-- The statement creates the table, unless it is there. -/
def Sql.Creates (sql : Sql) (stmt : Text) : Prop := sql.records stmt none = some Table.empty

/-- The migrations leave `schema_migrations` to the runner: none of their statements changes or
    drops it, and the first file creates it. -/
structure Sql.LeavesRecords (sql : Sql) (files : List MigrationFile) : Prop where
  keeps : ∀ f ∈ files, ∀ stmt ∈ f.statements, ∀ table, sql.records stmt (some table) = some table
  creates : ∀ f ∈ files, ∀ stmt ∈ f.statements, sql.records stmt none = none ∨ sql.Creates stmt
  bootstrap : ∀ f, files.head? = some f →
    f.statements = [] ∨ ∃ stmt ∈ f.statements, sql.Creates stmt

/-! ## Where a run is interrupted -/

/-- A fault in a file, after `position` of its requests: its statements, the record, the commit. -/
structure Interruption where
  file : MigrationFile
  position : Nat
  fault : Fault RunnerError

/-- The commit of the file takes effect all the same. -/
def Interruption.Committed (i : Interruption) : Prop :=
  i.position = i.file.statements.length + 1 ∧ ∃ e, i.fault = .drops e true

/-- What has been done of the file is undone: no statement before the fault was DDL; and if the
    fault is in a DDL statement, after its implicit commit, it is the first statement. -/
def Interruption.Undone (sql : Sql) (i : Interruption) : Prop :=
  (∀ stmt ∈ i.file.statements.take i.position, sql.isDdl stmt = false) ∧
    (i.position = 0 ∨ i.fault.flag = false ∨
      ∀ stmt, i.file.statements[i.position]? = some stmt → sql.isDdl stmt = false)

/-- All or nothing of the file is durable. -/
def Interruption.Harmless (sql : Sql) (i : Interruption) : Prop := i.Committed ∨ i.Undone sql

section

variable {sql : Sql} {sha256 : Text → Text}

/-! ## Statements -/

/-- What is committed and what the transaction sees after statements of a file. -/
def played (sql : Sql) (f : MigrationFile) :
    Nat → List Text → MigrationDb × MigrationDb → MigrationDb × MigrationDb
  | _, [], c => c
  | position, stmt :: stmts, c =>
    let d := c.2.execute sql f position stmt
    played sql f (position + 1) stmts (if sql.isDdl stmt then d else c.1, d)

variable {f : MigrationFile} {position : Nat} {stmt : Text} {stmts : List Text}
  {s : Session RunnerError MigrationDb}

theorem perform_execStatement_of_none (sql : Sql) (f : MigrationFile) (position : Nat)
    (stmt : Text) (hlost : s.lost = none) (h : cutoff 1 s.faults = none) :
    ∃ s', perform (execStatement sql f position stmt) s = (.ok (), s') ∧ s'.lost = none ∧
      s'.faults = s.faults.drop 1 ∧
      (s'.committed, s'.working) = played sql f position [stmt] (s.committed, s.working) := by
  unfold execStatement
  by_cases hddl : sql.isDdl stmt
  · rw [if_pos hddl]
    refine ⟨_, perform_request_of_none hlost h, hlost, rfl, ?_⟩
    simp only [played, hddl]
    rfl
  · rw [if_neg hddl]
    refine ⟨_, perform_request_of_none hlost h, hlost, rfl, ?_⟩
    simp only [played, hddl]
    rfl

/-- A fault in a statement: DDL may have committed what came before it. -/
theorem perform_execStatement_of_some (sql : Sql) (f : MigrationFile) (position : Nat)
    (stmt : Text) {p : Nat} {fault : Fault RunnerError} (hlost : s.lost = none)
    (h : cutoff 1 s.faults = some (p, fault)) :
    ∃ s', perform (execStatement sql f position stmt) s = (.error fault.error, s') ∧
      s'.committed = if sql.isDdl stmt && fault.flag then s.working else s.committed := by
  unfold execStatement
  by_cases hddl : sql.isDdl stmt
  · rw [if_pos hddl]
    refine ⟨_, perform_request_of_some hlost h, ?_⟩
    rcases fault with ⟨e, _ | _⟩ | ⟨e, _ | _⟩ <;> simp [hddl, implicitlyCommitted, Fault.flag,
      Session.publish, Session.drop, Session.undo]
  · rw [if_neg hddl]
    refine ⟨_, perform_request_of_some hlost h, ?_⟩
    rcases fault with ⟨e, _ | _⟩ | ⟨e, _ | _⟩ <;> simp [hddl, interrupted, Session.drop,
      Session.undo]

theorem perform_execStatements_of_none (sql : Sql) (f : MigrationFile) (stmts : List Text)
    (position : Nat) (s : Session RunnerError MigrationDb) (hlost : s.lost = none)
    (h : cutoff stmts.length s.faults = none) :
    ∃ s', perform (execStatements sql f position stmts) s = (.ok (), s') ∧ s'.lost = none ∧
      s'.faults = s.faults.drop stmts.length ∧
      (s'.committed, s'.working) = played sql f position stmts (s.committed, s.working) := by
  induction stmts generalizing position s with
  | nil => exact ⟨s, rfl, hlost, rfl, rfl⟩
  | cons stmt stmts ih =>
      rw [List.length_cons, Nat.add_comm, cutoff_add] at h
      cases hfirst : cutoff 1 s.faults with
      | some c =>
          rw [hfirst] at h
          cases h
      | none =>
          rw [hfirst] at h
          have hrest := Option.map_eq_none_iff.mp h
          obtain ⟨s₁, hrun, hlost₁, hfaults, hpair⟩ := perform_execStatement_of_none sql f position
            stmt hlost hfirst
          rw [← hfaults] at hrest
          obtain ⟨s₂, hrun₂, hlost₂, hfaults₂, hpair₂⟩ := ih (position + 1) s₁ hlost₁ hrest
          refine ⟨s₂, ?_, hlost₂, ?_, ?_⟩
          · rw [execStatements, perform_bind, hrun]
            exact hrun₂
          · rw [hfaults₂, hfaults, List.drop_drop, List.length_cons, Nat.add_comm]
          · rw [hpair₂, hpair]
            rfl

theorem perform_execStatements_of_some (sql : Sql) (f : MigrationFile) {p : Nat}
    {fault : Fault RunnerError} (stmts : List Text) (position : Nat)
    (s : Session RunnerError MigrationDb) (hlost : s.lost = none)
    (h : cutoff stmts.length s.faults = some (p, fault)) :
    ∃ s', perform (execStatements sql f position stmts) s = (.error fault.error, s') ∧
      s'.committed =
        if stmts[p]?.any sql.isDdl && fault.flag then
          (played sql f position (stmts.take p) (s.committed, s.working)).2
        else (played sql f position (stmts.take p) (s.committed, s.working)).1 := by
  induction stmts generalizing position s p with
  | nil => simp at h
  | cons stmt stmts ih =>
      rw [List.length_cons] at h
      rcases cutoff_succ_cases h with ⟨rfl, hfirst⟩ | ⟨q, rfl, hfirst, hrest⟩
      · obtain ⟨s₁, hrun, hcommitted⟩ := perform_execStatement_of_some sql f position
          stmt hlost hfirst
        refine ⟨s₁, ?_, hcommitted⟩
        rw [execStatements, perform_bind, hrun]
      · obtain ⟨s₁, hrun, hlost₁, hfaults, hpair⟩ := perform_execStatement_of_none sql f position
          stmt hlost hfirst
        rw [← hfaults] at hrest
        obtain ⟨s₂, hrun₂, hcommitted⟩ := ih (position + 1) s₁ hlost₁ hrest
        refine ⟨s₂, ?_, ?_⟩
        · rw [execStatements, perform_bind, hrun]
          exact hrun₂
        · rw [hcommitted, hpair]
          rfl

/-! ## What statements leave behind -/

theorem effects_played (f : MigrationFile) (stmts : List Text) :
    ∀ (position : Nat) (c : MigrationDb × MigrationDb),
      (played sql f position stmts c).2.effects =
        c.2.effects ++ (List.range' position stmts.length).map fun q => ⟨f.filename, q⟩ := by
  induction stmts with
  | nil =>
      intro position c
      exact (List.append_nil _).symm
  | cons stmt stmts ih =>
      intro position c
      rw [played, ih, List.length_cons, List.range'_succ, List.map_cons]
      simp [MigrationDb.execute]

/-- What is committed is what the transaction saw after the last DDL statement. -/
theorem committed_played (sql : Sql) (f : MigrationFile) (stmts : List Text) :
    ∀ (position : Nat) (c : MigrationDb × MigrationDb),
      ((∀ stmt ∈ stmts, sql.isDdl stmt = false) ∧ (played sql f position stmts c).1 = c.1) ∨
        ((∃ stmt ∈ stmts, sql.isDdl stmt) ∧ ∃ n, 0 < n ∧ n ≤ stmts.length ∧
          (played sql f position stmts c).1 = (played sql f position (stmts.take n) c).2) := by
  induction stmts with
  | nil =>
      intro position c
      exact .inl ⟨nofun, rfl⟩
  | cons stmt stmts ih =>
      intro position c
      have hrest := ih (position + 1)
        (if sql.isDdl stmt then c.2.execute sql f position stmt else c.1,
          c.2.execute sql f position stmt)
      obtain ⟨hnone, hcommitted⟩ | ⟨⟨ddl, hmem, hddl⟩, n, hpos, hle, hcommitted⟩ := hrest
      · by_cases hstmt : sql.isDdl stmt
        · refine .inr ⟨⟨stmt, List.mem_cons_self, hstmt⟩, 1, Nat.one_pos, ?_, ?_⟩
          · rw [List.length_cons]
            omega
          · rw [played, hcommitted]
            simp [played, hstmt]
        · refine .inl ⟨?_, ?_⟩
          · intro other hother
            obtain rfl | hother := List.mem_cons.mp hother
            · simpa using hstmt
            · exact hnone other hother
          · rw [played, hcommitted]
            simp [hstmt]
      · refine .inr ⟨⟨ddl, List.mem_cons_of_mem _ hmem, hddl⟩, n + 1, Nat.succ_pos n, ?_, ?_⟩
        · rw [List.length_cons]
          omega
        · rw [played, hcommitted]
          rfl

theorem rows_execute {position : Nat} {d : MigrationDb}
    (hkeeps : ∀ table, sql.records stmt (some table) = some table)
    (hcreates : sql.records stmt none = none ∨ sql.Creates stmt) :
    (d.execute sql f position stmt).rows = d.rows := by
  unfold MigrationDb.rows MigrationDb.execute
  cases happlied : d.applied with
  | some table => simp only [hkeeps]
  | none =>
      obtain hnone | hempty := hcreates
      · simp only [hnone]
      · rw [Sql.Creates] at hempty
        simp only [hempty]
        rfl

theorem rows_played {stmts : List Text}
    (hkeeps : ∀ stmt ∈ stmts, ∀ table, sql.records stmt (some table) = some table)
    (hcreates : ∀ stmt ∈ stmts, sql.records stmt none = none ∨ sql.Creates stmt) :
    ∀ (position : Nat) (c : MigrationDb × MigrationDb),
      (played sql f position stmts c).2.rows = c.2.rows := by
  induction stmts with
  | nil =>
      intro position c
      rfl
  | cons stmt stmts ih =>
      intro position c
      have hrest := ih (fun t ht => hkeeps t (List.mem_cons_of_mem _ ht))
        (fun t ht => hcreates t (List.mem_cons_of_mem _ ht))
      rw [played, hrest]
      exact rows_execute (hkeeps stmt List.mem_cons_self) (hcreates stmt List.mem_cons_self)

/-- The table stays, and is there after a statement that creates it. -/
theorem isSome_played {stmts : List Text}
    (hkeeps : ∀ stmt ∈ stmts, ∀ table, sql.records stmt (some table) = some table) :
    ∀ (position : Nat) (c : MigrationDb × MigrationDb),
      (c.2.applied.isSome ∨ ∃ stmt ∈ stmts, sql.Creates stmt) →
        (played sql f position stmts c).2.applied.isSome := by
  induction stmts with
  | nil =>
      intro position c h
      obtain h | ⟨stmt, hmem, _⟩ := h
      · exact h
      · cases hmem
  | cons stmt stmts ih =>
      intro position c h
      have hrest := ih (fun t ht => hkeeps t (List.mem_cons_of_mem _ ht)) (position + 1)
        (if sql.isDdl stmt then c.2.execute sql f position stmt else c.1,
          c.2.execute sql f position stmt)
      rw [played]
      apply hrest
      have hstay : c.2.applied.isSome → (c.2.execute sql f position stmt).applied.isSome := by
        intro hsome
        obtain ⟨table, htable⟩ := Option.isSome_iff_exists.mp hsome
        show (sql.records stmt c.2.applied).isSome
        rw [htable, hkeeps stmt List.mem_cons_self]
        rfl
      obtain h | ⟨t, hmem, ht⟩ := h
      · exact .inl (hstay h)
      · obtain rfl | hmem := List.mem_cons.mp hmem
        · left
          cases happlied : c.2.applied with
          | some table => exact hstay (by rw [happlied]; rfl)
          | none =>
              show (sql.records t c.2.applied).isSome
              rw [happlied, show sql.records t none = some Table.empty from ht]
              rfl
        · exact .inr ⟨t, hmem, ht⟩

/-! ## One file -/

/-- The row of the file. -/
def MigrationFile.row (sha256 : Text → Text) (f : MigrationFile) : Text × Text :=
  (f.filename, sha256 f.content)

/-- From `d` to `d'` the files `now` have been applied and recorded, and then `extra` has taken
    effect of a file that is not recorded. -/
structure Progress (sha256 : Text → Text) (now : List MigrationFile) (extra : List Effect)
    (d d' : MigrationDb) : Prop where
  effects : d'.effects = d.effects ++ now.flatMap MigrationFile.effects ++ extra
  rows : d'.rows = d.rows ++ now.map (MigrationFile.row sha256)

/-- The file may be applied to the database `d`. -/
structure Ready (sql : Sql) (f : MigrationFile) (d : MigrationDb) : Prop where
  keeps : ∀ stmt ∈ f.statements, ∀ table, sql.records stmt (some table) = some table
  creates : ∀ stmt ∈ f.statements, sql.records stmt none = none ∨ sql.Creates stmt
  table : d.applied.isSome ∨ ∃ stmt ∈ f.statements, sql.Creates stmt
  fresh : f.filename ∉ d.rows.map Prod.fst

variable {d : MigrationDb}

theorem progress_refl (d : MigrationDb) : Progress sha256 [] [] d d :=
  ⟨by simp, by simp⟩

/-- What the first `n` statements leave in the transaction. -/
theorem progress_working (sha256 : Text → Text) (hf : Ready sql f d) {n : Nat}
    (hn : n ≤ f.statements.length) :
    Progress sha256 [] ((List.range n).map fun q => ⟨f.filename, q⟩) d
      (played sql f 0 (f.statements.take n) (d, d)).2 := by
  constructor
  · rw [effects_played, List.length_take, min_eq_left hn, ← List.range_eq_range']
    simp
  · rw [rows_played (fun t ht => hf.keeps t (List.mem_of_mem_take ht))
      (fun t ht => hf.creates t (List.mem_of_mem_take ht))]
    simp

/-- What the first `n` statements leave durable: nothing, unless one of them is DDL. -/
theorem progress_committed (sha256 : Text → Text) (hf : Ready sql f d) (n : Nat) :
    ∃ extra, Progress sha256 [] extra d (played sql f 0 (f.statements.take n) (d, d)).1 ∧
      (extra = [] ↔ ∀ stmt ∈ f.statements.take n, sql.isDdl stmt = false) := by
  obtain ⟨hnone, hcommitted⟩ | ⟨⟨ddl, hmem, hddl⟩, m, hpos, hle, hcommitted⟩ :=
    committed_played sql f (f.statements.take n) 0 (d, d)
  · refine ⟨[], ?_, iff_of_true rfl hnone⟩
    rw [hcommitted]
    exact progress_refl d
  · rw [List.length_take] at hle
    have hm : m ≤ f.statements.length := by omega
    have hprogress := progress_working sha256 hf hm
    rw [List.take_take, min_eq_left (by omega)] at hcommitted
    refine ⟨_, by rw [hcommitted]; exact hprogress, ?_⟩
    apply iff_of_false
    · intro hnil
      have hlength := congrArg List.length hnil
      simp at hlength
      omega
    · intro hnone
      rw [hnone ddl hmem] at hddl
      cases hddl

/-- The handler of `_apply_one` raises, and changes nothing that is durable. -/
theorem perform_onApplyError (f : MigrationFile) (e : RunnerError)
    (s : Session RunnerError MigrationDb) :
    ∃ e' s', perform (onApplyError f e) s = (.error e', s') ∧ s'.committed = s.committed := by
  cases e with
  | mySql text =>
      have hcommitted := committed_rollback s
      rw [onApplyError, perform_bind]
      cases hrun : perform rollback s with
      | mk result s' =>
          rw [hrun] at hcommitted
          cases result with
          | ok _ => exact ⟨_, s', rfl, hcommitted⟩
          | error e' => exact ⟨e', s', rfl, hcommitted⟩
  | migration e => exact ⟨_, s, rfl, rfl⟩
  | unreadable => exact ⟨_, s, rfl, rfl⟩
  | stopped => exact ⟨_, s, rfl, rfl⟩

theorem perform_applyOne_of_none (sql : Sql) (hs : Rest d s) (hne : f.statements ≠ [])
    (h : cutoff f.statements.length s.faults = none) :
    ∃ s', perform (applyOne sql f) s = (.ok (), s') ∧ s'.lost = none ∧
      s'.faults = s.faults.drop f.statements.length ∧
      (s'.committed, s'.working) = played sql f 0 f.statements (d, d) := by
  obtain ⟨s', hrun, hlost, hfaults, hpair⟩ :=
    perform_execStatements_of_none sql f f.statements 0 s hs.lost h
  rw [hs.committed, hs.working] at hpair
  refine ⟨s', ?_, hlost, hfaults, hpair⟩
  rw [applyOne, if_neg hne, perform_tryCatch, hrun]

theorem perform_applyOne_of_some (sql : Sql) {p : Nat} {fault : Fault RunnerError} (hs : Rest d s)
    (hne : f.statements ≠ []) (h : cutoff f.statements.length s.faults = some (p, fault)) :
    ∃ e s', perform (applyOne sql f) s = (.error e, s') ∧
      s'.committed =
        if f.statements[p]?.any sql.isDdl && fault.flag then
          (played sql f 0 (f.statements.take p) (d, d)).2
        else (played sql f 0 (f.statements.take p) (d, d)).1 := by
  obtain ⟨s₁, hrun, hcommitted⟩ :=
    perform_execStatements_of_some sql f f.statements 0 s hs.lost h
  rw [hs.committed, hs.working] at hcommitted
  obtain ⟨e, s₂, hhandler, hcommitted₂⟩ := perform_onApplyError f fault.error s₁
  refine ⟨e, s₂, ?_, hcommitted₂.trans hcommitted⟩
  rw [applyOne, if_neg hne, perform_tryCatch, hrun]
  exact hhandler

/-- All statements of a file and its row. -/
theorem progress_recorded (hf : Ready sql f d) {d' : MigrationDb}
    (hrecord : (played sql f 0 f.statements (d, d)).2.record sha256 f = .ok d') :
    d'.applied.isSome ∧ Progress sha256 [f] [] d d' := by
  have hprogress := progress_working sha256 hf (le_refl f.statements.length)
  rw [List.take_length] at hprogress
  have htable := isSome_of_record hrecord
  have hfresh : f.filename ∉ (played sql f 0 f.statements (d, d)).2.rows.map Prod.fst := by
    rw [hprogress.rows]
    simpa using hf.fresh
  obtain ⟨d₁, hok, heffects, hsome, hrows⟩ := record_eq_ok sha256 htable hfresh
  rw [hrecord] at hok
  obtain rfl := Except.ok.inj hok
  refine ⟨hsome, ?_, ?_⟩
  · rw [heffects, hprogress.effects]
    simp [MigrationFile.effects]
  · rw [hrows, hprogress.rows]
    simp [MigrationFile.row]

/-- After its statements the file can be recorded. -/
theorem exists_record (sha256 : Text → Text) (hf : Ready sql f d) :
    ∃ d', (played sql f 0 f.statements (d, d)).2.record sha256 f = .ok d' := by
  have hprogress := progress_working sha256 hf (le_refl f.statements.length)
  rw [List.take_length] at hprogress
  have hfresh : f.filename ∉ (played sql f 0 f.statements (d, d)).2.rows.map Prod.fst := by
    rw [hprogress.rows]
    simpa using hf.fresh
  obtain ⟨d', hok, -⟩ := record_eq_ok sha256 (isSome_played hf.keeps 0 (d, d) hf.table)
    hfresh
  exact ⟨d', hok⟩

/-- The statements of a file, its record and the commit, without a fault. -/
theorem applyAndRecord_of_none (sha256 : Text → Text) (hs : Rest d s) (hf : Ready sql f d)
    (hne : f.statements ≠ [])
    (h : cutoff (f.statements.length + 2) s.faults = none) :
    ∃ d' s', perform (applyAndRecord sql sha256 f) s = (.ok (), s') ∧ Rest d' s' ∧
      s'.faults = s.faults.drop (f.statements.length + 2) ∧ d'.applied.isSome ∧
      Progress sha256 [f] [] d d' := by
  obtain ⟨hstmts, hrest⟩ := cutoff_add_eq_none.mp h
  obtain ⟨hone, hlast⟩ := cutoff_add_eq_none (m := 1) (n := 1) |>.mp hrest
  obtain ⟨s₁, hrun₁, hlost₁, hfaults₁, hpair⟩ := perform_applyOne_of_none sql hs hne hstmts
  obtain ⟨d', hrecord⟩ := exists_record sha256 hf
  obtain ⟨hsome, hprogress⟩ := progress_recorded hf hrecord
  rw [← hfaults₁] at hone hlast
  rw [← (Prod.mk.inj hpair).2] at hrecord
  obtain ⟨s₂, hrun₂, hlost₂, hfaults₂, -, hworking⟩ := perform_exec_of_none _ hlost₁ hone hrecord
  rw [← hfaults₂] at hlast
  obtain ⟨s₃, hrun₃, hrest₃, hfaults₃⟩ := perform_commit_of_none hlost₂ hlast
  rw [hworking] at hrest₃
  refine ⟨d', s₃, ?_, hrest₃, ?_, hsome, hprogress⟩
  · rw [applyAndRecord, perform_bind, hrun₁]
    simp only
    rw [recordApplied, perform_bind, hrun₂]
    exact hrun₃
  · rw [hfaults₃, hfaults₂, hfaults₁, List.drop_drop, List.drop_drop]

/-- A fault in a statement of the file. -/
theorem harmless_iff_of_statement (sha256 : Text → Text) (hf : Ready sql f d) {p : Nat}
    {fault : Fault RunnerError} (hp : p < f.statements.length) {d' : MigrationDb}
    (hd' : d' = if f.statements[p]?.any sql.isDdl && fault.flag then
        (played sql f 0 (f.statements.take p) (d, d)).2
      else (played sql f 0 (f.statements.take p) (d, d)).1) :
    ∃ extra, Progress sha256 [] extra d d' ∧
      (extra = [] ↔ Interruption.Harmless sql ⟨f, p, fault⟩) := by
  have hnot : ¬ Interruption.Committed ⟨f, p, fault⟩ := by
    intro h
    have hlast : p = f.statements.length + 1 := h.1
    omega
  obtain ⟨extra, hcommitted, hextra⟩ := progress_committed sha256 hf p
  by_cases himplicit : (f.statements[p]?.any sql.isDdl && fault.flag) = true
  · -- what the transaction has made so far has been committed
    rw [if_pos himplicit] at hd'
    refine ⟨_, by rw [hd']; exact progress_working sha256 hf (le_of_lt hp), ?_⟩
    obtain ⟨hany, hflag⟩ := Bool.and_eq_true_iff.mp himplicit
    obtain ⟨stmt, hstmt, hddl⟩ := Option.any_eq_true _ _ |>.mp hany
    have hnil : ((List.range p).map fun q => (⟨f.filename, q⟩ : Effect)) = [] ↔ p = 0 := by simp
    rw [hnil]
    constructor
    · intro hzero
      right
      refine ⟨?_, .inl hzero⟩
      subst hzero
      intro stmt hmem
      cases hmem
    · intro hharmless
      obtain h | ⟨-, hzero | hfalse | hall⟩ := hharmless
      · exact absurd h hnot
      · exact hzero
      · exact absurd (hflag.symm.trans hfalse) (by simp)
      · rw [hall stmt hstmt] at hddl
        cases hddl
  · rw [if_neg himplicit] at hd'
    refine ⟨extra, by rw [hd']; exact hcommitted, ?_⟩
    rw [hextra]
    constructor
    · intro hnone
      right
      refine ⟨hnone, .inr ?_⟩
      by_cases hflag : fault.flag = false
      · exact .inl hflag
      · right
        intro stmt hstmt
        by_contra hddl
        apply himplicit
        rw [Bool.and_eq_true_iff]
        constructor
        · exact Option.any_eq_true _ _ |>.mpr ⟨stmt, hstmt, by simpa using hddl⟩
        · simpa using hflag
    · intro hharmless
      obtain h | h := hharmless
      · exact absurd h hnot
      · exact h.1

/-- A fault after the statements of the file. -/
theorem harmless_iff_of_record (sha256 : Text → Text) (hf : Ready sql f d) {p : Nat}
    (fault : Fault RunnerError) (hp : f.statements.length ≤ p)
    (hundone : ¬ Interruption.Committed ⟨f, p, fault⟩) :
    ∃ extra, Progress sha256 [] extra d (played sql f 0 f.statements (d, d)).1 ∧
      (extra = [] ↔ Interruption.Harmless sql ⟨f, p, fault⟩) := by
  obtain ⟨extra, hcommitted, hextra⟩ := progress_committed sha256 hf p
  rw [List.take_of_length_le hp] at hcommitted
  refine ⟨extra, hcommitted, ?_⟩
  rw [hextra]
  constructor
  · intro hnone
    right
    refine ⟨hnone, .inr (.inr ?_)⟩
    intro stmt hstmt
    have hend : f.statements[p]? = none := List.getElem?_eq_none hp
    rw [hend] at hstmt
    cases hstmt
  · intro hharmless
    obtain h | h := hharmless
    · exact absurd h hundone
    · exact h.1

/-- A fault in the record of the file or in its commit, after all of its statements. -/
theorem recordAndCommit_of_some (sha256 : Text → Text) (hf : Ready sql f d) (hlost : s.lost = none)
    (hpair : (s.committed, s.working) = played sql f 0 f.statements (d, d)) {p : Nat}
    {fault : Fault RunnerError} (h : cutoff 2 s.faults = some (p, fault)) :
    ∃ e s' now extra, perform (recordApplied sha256 f >>= fun _ => commit) s = (.error e, s') ∧
      now <+: [f] ∧ Progress sha256 now extra d s'.committed ∧
      (extra = [] ↔ Interruption.Harmless sql ⟨f, p + f.statements.length, fault⟩) := by
  obtain ⟨hcommitted, hworking⟩ := Prod.mk.inj hpair
  have hlength : f.statements.length ≤ p + f.statements.length := Nat.le_add_left _ _
  rw [recordApplied, perform_bind]
  cases hone : cutoff 1 s.faults with
  | some c =>
      -- the record of the file
      obtain rfl := Option.some.inj ((cutoff_add_of_some hone 1).symm.trans h)
      obtain ⟨s', hrun, hstruck⟩ := perform_exec_of_some (MigrationDb.record sha256 f) hlost hone
      have hp : p = 0 := Nat.lt_one_iff.mp (cutoff_lt hone)
      obtain ⟨extra, hprogress, hiff⟩ := harmless_iff_of_record sha256 hf fault hlength
        fun hcommitted => by
          have hlast : p + f.statements.length = f.statements.length + 1 := hcommitted.1
          omega
      refine ⟨fault.error, s', [], extra, ?_, List.nil_prefix, ?_, hiff⟩
      · rw [hrun]
      · rw [hstruck.committed, hcommitted]
        exact hprogress
  | none =>
      -- the commit
      obtain ⟨⟨q, g⟩, hlast, heq⟩ :=
        Option.map_eq_some_iff.mp ((cutoff_add_of_none hone 1).symm.trans h)
      obtain ⟨rfl, rfl⟩ := Prod.mk.inj heq
      have hq : q = 0 := Nat.lt_one_iff.mp (cutoff_lt hlast)
      have hposition : q + 1 + f.statements.length = f.statements.length + 1 := by omega
      obtain ⟨d', hrecord⟩ := exists_record sha256 hf
      obtain ⟨-, hrecorded⟩ := progress_recorded hf hrecord
      rw [← hworking] at hrecord
      obtain ⟨s₁, hrun₁, hlost₁, hfaults₁, hcommitted₁, hworking₁⟩ :=
        perform_exec_of_none _ hlost hone hrecord
      rw [← hfaults₁] at hlast
      obtain ⟨s₂, hrun₂, hcommit⟩ := perform_commit_of_some hlost₁ hlast
      rw [hrun₁]
      obtain ⟨happlied, hcommitted₂, -⟩ | ⟨hnot, hstruck⟩ := hcommit
      · refine ⟨g.error, s₂, [f], [], hrun₂, List.prefix_refl _, ?_, ?_⟩
        · rw [hcommitted₂, hworking₁]
          exact hrecorded
        · exact iff_of_true rfl (.inl ⟨hposition, happlied⟩)
      · obtain ⟨extra, hprogress, hiff⟩ := harmless_iff_of_record sha256 hf g hlength
          fun hcommitted => hnot hcommitted.2
        refine ⟨g.error, s₂, [], extra, hrun₂, List.nil_prefix, ?_, hiff⟩
        rw [hstruck.committed, hcommitted₁, hcommitted]
        exact hprogress

/-- A file with a fault: what has been done of it is durable as a whole, not at all, or in part. -/
theorem applyAndRecord_of_some (sha256 : Text → Text) {p : Nat} {fault : Fault RunnerError}
    (hs : Rest d s) (hf : Ready sql f d) (hne : f.statements ≠ [])
    (h : cutoff (f.statements.length + 2) s.faults = some (p, fault)) :
    ∃ e s' now extra, perform (applyAndRecord sql sha256 f) s = (.error e, s') ∧ now <+: [f] ∧
      Progress sha256 now extra d s'.committed ∧
      (extra = [] ↔ Interruption.Harmless sql ⟨f, p, fault⟩) := by
  cases hstmts : cutoff f.statements.length s.faults with
  | some c =>
      rw [cutoff_add_of_some hstmts] at h
      obtain rfl := Option.some.inj h
      obtain ⟨e, s₁, hrun, hcommitted⟩ := perform_applyOne_of_some sql hs hne hstmts
      obtain ⟨extra, hprogress, hiff⟩ :=
        harmless_iff_of_statement sha256 hf (cutoff_lt hstmts) hcommitted
      refine ⟨e, s₁, [], extra, ?_, List.nil_prefix, hprogress, hiff⟩
      rw [applyAndRecord, perform_bind, hrun]
  | none =>
      rw [cutoff_add_of_none hstmts] at h
      obtain ⟨⟨q, g⟩, hrest, heq⟩ := Option.map_eq_some_iff.mp h
      obtain ⟨rfl, rfl⟩ := Prod.mk.inj heq
      obtain ⟨s₁, hrun₁, hlost₁, hfaults₁, hpair⟩ :=
        perform_applyOne_of_none sql hs hne hstmts
      rw [← hfaults₁] at hrest
      obtain ⟨e, s₂, now, extra, hrun₂, hprefix, hprogress, hiff⟩ :=
        recordAndCommit_of_some sha256 hf hlost₁ hpair hrest
      refine ⟨e, s₂, now, extra, ?_, hprefix, hprogress, hiff⟩
      rw [applyAndRecord, perform_bind, hrun₁]
      exact hrun₂

end

end TraxMania.Storage
