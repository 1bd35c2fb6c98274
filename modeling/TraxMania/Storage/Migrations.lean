import Mathlib.Data.Char
import Mathlib.Data.List.Lex
import TraxMania.Lib.Cutoff
import TraxMania.Lib.PyText
import TraxMania.Lib.SortBy
import TraxMania.Lib.Table

/-
  `storage/mariadb.py`: the migration runner. A run discovers the files, splits each file that is
  not recorded in `schema_migrations` into its statements, executes them one after another, records
  the file and commits.
-/

namespace TraxMania.Storage

open Lib Lib.PyText Lib.SortBy Lib.Txn Lib.Words

/-! ## The files -/

/-- An entry of the migrations directory. -/
structure DirEntry where
  name : Text
  isFile : Bool
  /-- `read_text(encoding="utf-8")`, `none` where it raises. -/
  content : Option Text

structure MigrationsDir where
  entries : List DirEntry
  nodup : (entries.map DirEntry.name).Nodup

structure MigrationFile where
  filename : Text
  content : Text

/-- `MigrationError`, by its text. -/
inductive MigrationError where
  /-- "migrations dir not found: …" -/
  | dirNotFound
  /-- "migration filename … does not match NNN_name.sql" -/
  | badFilename (filename : Text)
  /-- "migration … contains no statements" -/
  | noStatements (filename : Text)
  /-- "failed applying …: …" -/
  | failedApplying (filename : Text) (cause : Text)
  /-- "first migration must be 000_bootstrap.sql, got …" -/
  | notBootstrap (filename : Text)
  /-- "migration … was modified after apply (stored hash …, file hash …)" -/
  | modified (filename : Text) (storedHash : Text) (fileHash : Text)

/-- The exceptions of a run. -/
inductive RunnerError where
  | migration (e : MigrationError)
  /-- `pymysql.MySQLError`. -/
  | mySql (text : Text)
  /-- A file cannot be read. -/
  | unreadable
  /-- The process is stopped. -/
  | stopped

/-- `path.suffix == ".sql"`. -/
def hasSqlSuffix (name : Text) : Bool := ".sql".toList.isSuffixOf name && 4 < name.length

/-- `[a-z0-9_]`. -/
def isNameChar (c : Char) : Bool := ('a' ≤ c && c ≤ 'z') || ('0' ≤ c && c ≤ '9') || c == '_'

/-- `_MIGRATION_FILENAME_RE.match(name)` for a name with the suffix `.sql`. -/
def matchesMigrationName : Text → Bool
  | a :: b :: c :: '_' :: rest =>
    (decimal a).isSome && (decimal b).isSome && (decimal c).isSome
      && ".sql".toList.isSuffixOf rest && 4 < rest.length
      && (rest.take (rest.length - 4)).all isNameChar
  | _ => false

/-- The loop of `discover_migrations`. -/
def collectMigrations : List DirEntry → Except RunnerError (List MigrationFile)
  | [] => .ok []
  | path :: paths =>
    if !path.isFile || !hasSqlSuffix path.name then collectMigrations paths
    else if !matchesMigrationName path.name then .error (.migration (.badFilename path.name))
    else
      match path.content with
      | none => .error .unreadable
      | some content => (collectMigrations paths).map (⟨path.name, content⟩ :: ·)

/-- `discover_migrations(migrations_dir)`. `none` stands for a directory that is not there. -/
def discoverMigrations : Option MigrationsDir → Except RunnerError (List MigrationFile)
  | none => .error (.migration .dirNotFound)
  | some dir => collectMigrations (sortBy DirEntry.name dir.entries)

/-- `_split_statements(sql)`. -/
def splitStatements (sql : Text) : List Text :=
  let lines := (splitlines sql).filter fun line => !"--".toList.isPrefixOf (line.dropWhile isSpace)
  let joined := ['\n'].intercalate lines
  ((joined.splitOn ';').map (strip isSpace)).filter fun stmt => !stmt.isEmpty

/-- `_split_statements(migration.content)`. -/
def MigrationFile.statements (f : MigrationFile) : List Text := splitStatements f.content

theorem filenames_collectMigrations {paths : List DirEntry} {files : List MigrationFile}
    (h : collectMigrations paths = .ok files) :
    (files.map MigrationFile.filename).Sublist (paths.map DirEntry.name) := by
  induction paths generalizing files with
  | nil =>
      obtain rfl := Except.ok.inj h
      exact List.Sublist.refl _
  | cons path paths ih =>
      unfold collectMigrations at h
      split at h
      · exact (ih h).cons _
      · split at h
        · cases h
        · split at h
          · cases h
          · cases hrest : collectMigrations paths with
            | error e =>
                rw [hrest] at h
                cases h
            | ok rest =>
                rw [hrest] at h
                obtain rfl := Except.ok.inj h
                exact (ih hrest).cons_cons _

/-- No two migrations have the same file name. -/
theorem filenames_nodup {dir : Option MigrationsDir} {files : List MigrationFile}
    (h : discoverMigrations dir = .ok files) : (files.map MigrationFile.filename).Nodup := by
  cases dir with
  | none => cases h
  | some dir =>
      have hperm := (sortBy_perm DirEntry.name dir.entries).map DirEntry.name
      exact (filenames_collectMigrations h).nodup (hperm.nodup_iff.mpr dir.nodup)

/-! ## The database -/

/-- The statement at `position` of a file has taken effect. -/
structure Effect where
  filename : Text
  position : Nat
deriving DecidableEq

/-- A row of `schema_migrations`. -/
structure AppliedRow where
  filename : Text
  contentSha256 : Text
deriving DecidableEq

/-- The table `schema_migrations`, once it exists. -/
abbrev SchemaMigrations := Option (Table AppliedRow.filename)

/-- The database: the effects of statements of migrations, in their order, and the table of the
    runner. -/
structure MigrationDb where
  effects : List Effect
  applied : SchemaMigrations

/-- What MariaDB makes of a statement. -/
structure Sql where
  /-- The statement commits implicitly. -/
  isDdl : Text → Bool
  /-- What it does to `schema_migrations`. -/
  records : Text → SchemaMigrations → SchemaMigrations

/-! ## The runner -/

section

variable (sql : Sql) (sha256 : Text → Text)

/-- The database after the statement. -/
def MigrationDb.execute (f : MigrationFile) (position : Nat) (stmt : Text) (d : MigrationDb) :
    MigrationDb :=
  ⟨d.effects ++ [⟨f.filename, position⟩], sql.records stmt d.applied⟩

/-- `cur.execute(stmt)`. -/
def execStatement (f : MigrationFile) (position : Nat) (stmt : Text) :
    Conn RunnerError MigrationDb Unit :=
  if sql.isDdl stmt then execDdl fun d => .ok (d.execute sql f position stmt)
  else exec fun d => .ok (d.execute sql f position stmt)

/-- `for stmt in statements: cur.execute(stmt)`, from a position on. -/
def execStatements (f : MigrationFile) : Nat → List Text → Conn RunnerError MigrationDb Unit
  | _, [] => pure ()
  | position, stmt :: stmts => do
    execStatement sql f position stmt
    execStatements f (position + 1) stmts

/-- `_schema_migrations_exists(conn)`. -/
def schemaMigrationsExists : Conn RunnerError MigrationDb Bool := select fun d => d.applied.isSome

/-- The rows of `schema_migrations`, as the pairs of file name and hash. -/
def MigrationDb.rows (d : MigrationDb) : List (Text × Text) :=
  match d.applied with
  | none => []
  | some table => table.rows.map fun r => (r.filename, r.contentSha256)

/-- `_applied_migrations(conn)`. Without the table the query fails. -/
def appliedMigrations : Conn RunnerError MigrationDb (List (Text × Text)) := do
  let (tableExists, rows) ← select fun d => (d.applied.isSome, d.rows)
  if tableExists then return rows
  else throw (.mySql "Table 'schema_migrations' doesn't exist".toList)

/-- The row goes in, unless there is no table or the file has a row. -/
def MigrationDb.record (f : MigrationFile) (d : MigrationDb) : Except RunnerError MigrationDb :=
  match d.applied with
  | none => .error (.mySql "Table 'schema_migrations' doesn't exist".toList)
  | some table =>
    match table.insert ⟨f.filename, sha256 f.content⟩ with
    | none => .error (.mySql "Duplicate entry".toList)
    | some table => .ok ⟨d.effects, some table⟩

/-- `_record_applied(conn, migration)`. -/
def recordApplied (f : MigrationFile) : Conn RunnerError MigrationDb Unit :=
  exec (MigrationDb.record sha256 f)

/-- The handler of `_apply_one`. -/
def onApplyError (f : MigrationFile) : RunnerError → Conn RunnerError MigrationDb Unit
  | .mySql text => do
    rollback
    throw (.migration (.failedApplying f.filename text))
  | e => throw e

/-- `_apply_one(conn, migration)`. -/
def applyOne (f : MigrationFile) : Conn RunnerError MigrationDb Unit :=
  if f.statements = [] then throw (.migration (.noStatements f.filename))
  else tryCatch (execStatements sql f 0 f.statements) (onApplyError f)

/-- `_apply_one`, `_record_applied` and `conn.commit()`. -/
def applyAndRecord (f : MigrationFile) : Conn RunnerError MigrationDb Unit := do
  applyOne sql f
  recordApplied sha256 f
  commit

/-- `for migration in remaining`. -/
def applyRemaining (applied : List (Text × Text)) :
    List MigrationFile → List Text → Conn RunnerError MigrationDb (List Text)
  | [], appliedNew => return appliedNew
  | migration :: remaining, appliedNew =>
    match applied.lookup migration.filename with
    | some storedHash =>
      if storedHash ≠ sha256 migration.content then
        throw (.migration (.modified migration.filename storedHash (sha256 migration.content)))
      else applyRemaining applied remaining appliedNew
    | none => do
      applyAndRecord sql sha256 migration
      applyRemaining applied remaining (appliedNew ++ [migration.filename])

def bootstrapName : Text := "000_bootstrap.sql".toList

/-- The bootstrap when there is no table: the names of the files applied, and the files that
    remain. -/
def applyBootstrap : List MigrationFile →
    Conn RunnerError MigrationDb (List Text × List MigrationFile)
  | [] => return ([], [])
  | bootstrap :: remaining =>
    if bootstrap.filename ≠ bootstrapName then
      throw (.migration (.notBootstrap bootstrap.filename))
    else do
      applyAndRecord sql sha256 bootstrap
      return ([bootstrap.filename], remaining)

/-- `apply_pending(conn, migrations_dir)` after `discover_migrations`. -/
def applyDiscovered (migrations : List MigrationFile) :
    Conn RunnerError MigrationDb (List Text) :=
  if migrations = [] then return []
  else do
    let tableExists ← schemaMigrationsExists
    let (appliedNew, remaining) ←
      if tableExists then pure ([], migrations) else applyBootstrap sql sha256 migrations
    let applied ← appliedMigrations
    applyRemaining sql sha256 applied remaining appliedNew

/-- `apply_pending(conn, migrations_dir)`. -/
def applyPending (dir : Option MigrationsDir) : Conn RunnerError MigrationDb (List Text) :=
  match discoverMigrations dir with
  | .error e => throw e
  | .ok migrations => applyDiscovered sql sha256 migrations

/-- `migrate()`: a run on a connection of its own, which is closed after it. -/
def migrate (dir : Option MigrationsDir) (d : MigrationDb)
    (faults : List (Option (Fault RunnerError))) : Except RunnerError (List Text) × MigrationDb :=
  let r := perform (applyPending sql sha256 dir) (Session.start d faults)
  (r.1, r.2.committed)

end

/-! ## Rows -/

theorem isSome_of_record {sha256 : Text → Text} {f : MigrationFile} {d d' : MigrationDb}
    (h : d.record sha256 f = .ok d') : d.applied.isSome := by
  unfold MigrationDb.record at h
  cases ha : d.applied with
  | none =>
      rw [ha] at h
      cases h
  | some table => rfl

/-- A record adds the row of the file. -/
theorem record_eq_ok (sha256 : Text → Text) {f : MigrationFile} {d : MigrationDb}
    (htable : d.applied.isSome) (hfresh : f.filename ∉ d.rows.map Prod.fst) :
    ∃ d', d.record sha256 f = .ok d' ∧ d'.effects = d.effects ∧ d'.applied.isSome ∧
      d'.rows = d.rows ++ [(f.filename, sha256 f.content)] := by
  obtain ⟨table, ha⟩ := Option.isSome_iff_exists.mp htable
  have hkey : f.filename ∉ table.rows.map AppliedRow.filename := by
    unfold MigrationDb.rows at hfresh
    rw [ha, List.map_map] at hfresh
    exact hfresh
  cases hins : table.insert ⟨f.filename, sha256 f.content⟩ with
  | none => exact absurd (Table.key_mem_of_insert_eq_none hins) hkey
  | some table' =>
      refine ⟨⟨d.effects, some table'⟩, ?_, rfl, rfl, ?_⟩
      · unfold MigrationDb.record
        rw [ha]
        simp only [hins]
      · unfold MigrationDb.rows
        rw [ha]
        simp only [Table.rows_of_insert hins, List.map_append, List.map_cons, List.map_nil]

end TraxMania.Storage
