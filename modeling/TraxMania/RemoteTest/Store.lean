import TraxMania.RemoteTest.Models
import Mathlib.Data.String.Basic

/-
  The job store of the remote-test queue: its state, the statements that it sends to the database,
  and the calls that are made of them.
-/

namespace TraxMania.RemoteTest

open TraxMania.Generation TraxMania.Generation.Llm Lib Lib.SortBy

/-- The functions of the standard library that the store calls. -/
structure StorePython where
  /-- `json.dumps(value, sort_keys=True)`. -/
  dumps : Json → Except PyError String
  loads : String → Except PyError Json
  /-- `hashlib.sha256(data).hexdigest()`. -/
  sha256 : List UInt8 → String
  /-- `repr` of a value. -/
  repr : Json → String
  /-- What a column of type `TEXT` keeps of a value; an error when it cannot be bound. -/
  columnText : Json → Except PyError String

/-- The exceptions of the store. -/
inductive StoreError where
  | jobStore (text : String)
  | python (e : PyError)
  /-- `sqlite3.Error`, and any other failure of a statement. -/
  | database
deriving DecidableEq

/-- `JobStore`. The ids of the rows grow in the order of the inserts, and `sequence` is the last one
    that was given out. -/
structure Store where
  jobs : Table JobRow.id
  sequence : Int
  ordered : jobs.rows.Pairwise fun r r' => r.id < r'.id
  bounded : ∀ r ∈ jobs.rows, r.id ≤ sequence

namespace Store

/-- The store of a new file. -/
def empty : Store where
  jobs := Table.empty
  sequence := 0
  ordered := List.Pairwise.nil
  bounded _ h := nomatch h

/-! ## Statements -/

/-- `INSERT INTO jobs`, with the next id. -/
def insertJob (row : Int → JobRow) (hrow : ∀ id, (row id).id = id) (s : Store) : Store where
  jobs := ⟨s.jobs.rows ++ [row (s.sequence + 1)], by
    rw [List.map_append, List.nodup_append]
    refine ⟨s.jobs.nodup, by simp, ?_⟩
    intro a ha b hb heq
    obtain ⟨r, hr, rfl⟩ := List.mem_map.mp ha
    have hle := s.bounded r hr
    have hid : b = s.sequence + 1 := by simpa [hrow] using hb
    omega⟩
  sequence := s.sequence + 1
  ordered := by
    rw [List.pairwise_append]
    refine ⟨s.ordered, List.pairwise_singleton _ _, ?_⟩
    intro r hr r' hr'
    have hle := s.bounded r hr
    have hid : r'.id = s.sequence + 1 := by
      rw [List.mem_singleton.mp hr', hrow]
    omega
  bounded := by
    intro r hr
    obtain hr | hr := List.mem_append.mp hr
    · have hle := s.bounded r hr
      omega
    · rw [List.mem_singleton.mp hr, hrow]

/-- `UPDATE jobs SET f WHERE p`. -/
def updateJobs (p : JobRow → Bool) (f : JobRow → JobRow) (hf : ∀ r, (f r).id = r.id) (s : Store) :
    Store where
  jobs := s.jobs.update p f hf
  sequence := s.sequence
  ordered := by
    have hids : ∀ r, (if p r then f r else r).id = r.id := by
      intro r
      split
      · exact hf r
      · rfl
    rw [Table.update_rows, List.pairwise_map]
    apply s.ordered.imp
    intro r r' h
    rwa [hids, hids]
  bounded := by
    intro r hr
    rw [Table.update_rows] at hr
    obtain ⟨r₀, hr₀, rfl⟩ := List.mem_map.mp hr
    have hle := s.bounded r₀ hr₀
    split
    · rwa [hf]
    · exact hle

theorem claim_id (now : Int) (agentId : String) (r : JobRow) : (r.claim now agentId).id = r.id := rfl

theorem move_id (now : Int) (toStatus : JobStatus) (detail reportJson : Option String) (r : JobRow) :
    (r.move now toStatus detail reportJson).id = r.id := rfl

theorem sweep_id (now : Int) (r : JobRow) : (r.sweep now).id = r.id := rfl

/-- The `SELECT` of `claim_next`. -/
def oldestQueued (s : Store) : Option JobRow :=
  (sortBy JobRow.queueKey (s.jobs.rows.filter fun r => r.status = .queued)).head?

/-- The `UPDATE` of `claim_next`: only while the job is queued. -/
def claimRow (now : Int) (agentId : String) (jobId : Int) (s : Store) : Store :=
  s.updateJobs (fun r => r.id = jobId && r.status = .queued) (JobRow.claim now agentId)
    (claim_id now agentId)

/-- The `UPDATE` of `transition`, whatever the status. -/
def moveRow (now : Int) (toStatus : JobStatus) (detail reportJson : Option String) (jobId : Int)
    (s : Store) : Store :=
  s.updateJobs (fun r => r.id = jobId) (JobRow.move now toStatus detail reportJson)
    (move_id now toStatus detail reportJson)

/-- The `SELECT` of `sweep_timeouts`. -/
def staleIds (now : Int) (s : Store) : List Int := (s.jobs.rows.filter (JobRow.stale now)).map (·.id)

/-- The `UPDATE` of `sweep_timeouts`, whatever the status. -/
def sweepRow (now : Int) (jobId : Int) (s : Store) : Store :=
  s.updateJobs (fun r => r.id = jobId) (JobRow.sweep now) (sweep_id now)

end Store

/-! ## Jobs -/

/-- `Job`. -/
structure Job where
  id : Int
  runId : String
  status : JobStatus
  artifactPath : String
  artifactSize : Nat
  artifactSha256 : String
  timeoutSeconds : Int
  createdAt : Int
  agentId : Option String
  claimedAt : Option Int
  completedAt : Option Int
  metadata : List (String × Json)
  report : Option (List (String × Json))
  detail : Option String

section

variable (py : StorePython)

/-- The object that a column holds, if it holds one. -/
def jsonObject (text : Option String) : Except StoreError (Option (List (String × Json))) :=
  if text.getD "" = "" then .ok none
  else match py.loads (text.getD "") with
    | .ok (.obj entries) => .ok (some entries)
    | .ok _ => .ok none
    | .error .recursionError => .error (.python .recursionError)
    | .error .overflowError => .error (.python .overflowError)
    | .error _ => .ok none

/-- `_row_to_job(r)`. -/
def rowToJob (r : JobRow) : Except StoreError Job := do
  let metadata ← jsonObject py (some r.metadataJson)
  let report ← jsonObject py r.reportJson
  return {
    id := r.id, runId := r.runId, status := r.status, artifactPath := r.artifactPath
    artifactSize := r.artifactSize, artifactSha256 := r.artifactSha256
    timeoutSeconds := r.timeoutSeconds, createdAt := r.createdAt, agentId := r.agentId
    claimedAt := r.claimedAt, completedAt := r.completedAt, metadata := metadata.getD []
    report := report, detail := r.detail }

/-- What the database makes of the statements of a call. -/
inductive Database where
  | answers
  /-- A statement fails before a row has changed. -/
  | refuses
  /-- The commit fails, or a statement behind it: the rows have changed. -/
  | failsLate
deriving DecidableEq

/-- The end of a call that has changed its rows. -/
def Database.finish {α : Type} (db : Database) (result : Except StoreError α) :
    Except StoreError α :=
  if db = .failsLate then .error .database else result

namespace Store

/-- `get(job_id)`. -/
def get (jobId : Int) (s : Store) : Except StoreError (Option Job) :=
  match s.jobs.find jobId with
  | none => .ok none
  | some r => (rowToJob py r).map some

/-- `get_strict(job_id)`. -/
def getStrict (jobId : Int) (s : Store) : Except StoreError Job := do
  match ← s.get py jobId with
  | none => .error (.jobStore ("job " ++ toString jobId ++ " not found"))
  | some job => .ok job

/-! ## Calls -/

/-- `EnqueueResult`. -/
structure EnqueueResult where
  jobId : Int
  artifactSha256 : String
  artifactSize : Nat

/-- The row of a new job. -/
def newRow (runId digest : String) (size : Nat) (timeoutSeconds createdAt : Int)
    (metadataJson : String) (id : Int) : JobRow where
  id := id
  runId := runId
  status := .queued
  artifactPath := digest ++ ".Map.Gbx"
  artifactSize := size
  artifactSha256 := digest
  timeoutSeconds := timeoutSeconds
  createdAt := createdAt
  claimedAt := none
  completedAt := none
  agentId := none
  metadataJson := metadataJson
  reportJson := none
  detail := none

theorem newRow_id (runId digest : String) (size : Nat) (timeoutSeconds createdAt : Int)
    (metadataJson : String) (id : Int) :
    (newRow runId digest size timeoutSeconds createdAt metadataJson id).id = id := rfl

/-- The checks of `enqueue`, up to the digest of the artifact. `artifact` is `none` where it is no
    bytes, and `existing` the file at a path before the call. -/
def checkEnqueue (existing : String → Option (List UInt8)) (root runId : String)
    (artifact : Option (List UInt8)) (timeoutSeconds : Int) :
    Except StoreError (List UInt8) :=
  match artifact with
  | none => .error (.jobStore "artifact_bytes must be bytes-like")
  | some data =>
    if timeoutSeconds ≤ 0 then .error (.jobStore "timeout_seconds must be positive")
    else if runId = "" then .error (.jobStore "run_id required")
    else
      let digest := py.sha256 data
      let target := root ++ "/" ++ digest ++ ".Map.Gbx"
      match existing target with
      | none => .ok data
      | some old =>
        if py.sha256 old ≠ digest then
          .error (.jobStore ("artifact path " ++ target ++ " has a different hash (" ++ py.sha256 old
            ++ ") than computed (" ++ digest ++ ")"))
        else .ok data

/-- `enqueue(…)`. -/
def enqueue (db : Database) (now : Int) (existing : String → Option (List UInt8))
    (root runId : String) (artifact : Option (List UInt8)) (metadata : Json)
    (timeoutSeconds : Int) (s : Store) : Except StoreError EnqueueResult × Store :=
  match checkEnqueue py existing root runId artifact timeoutSeconds with
  | .error e => (.error e, s)
  | .ok data =>
    match py.dumps (if truthy metadata then metadata else .obj []) with
    | .error e => (.error (.python e), s)
    | .ok metadataJson =>
      if db = .refuses then (.error .database, s)
      else
        let digest := py.sha256 data
        (db.finish (.ok ⟨s.sequence + 1, digest, data.length⟩),
          s.insertJob (newRow runId digest data.length timeoutSeconds now metadataJson)
            (newRow_id runId digest data.length timeoutSeconds now metadataJson))

/-- `claim_next(agent_id)`. -/
def claimNext (db : Database) (now : Int) (agentId : String) (s : Store) :
    Except StoreError (Option Job) × Store :=
  if agentId = "" then (.error (.jobStore "agent_id required"), s)
  else if db = .refuses then (.error .database, s)
  else
    match s.oldestQueued with
    | none => (.ok none, s)
    | some r =>
      let s' := s.claimRow now agentId r.id
      (db.finish (s'.get py r.id), s')

/-- The row belongs to another agent than the one that the call names. -/
def foreign (row : JobRow) (agentId : Json) : Bool :=
  match agentId, row.agentId with
  | .null, _ => false
  | _, none => false
  | .str name, some owner => name ≠ owner
  | _, some _ => true

/-- The checks of `transition`. -/
def checkMove (row : JobRow) (toStatus : JobStatus) (agentId : Json) : Except StoreError Unit :=
  if toStatus ∉ row.status.allowed then
    let values := sortBy id (row.status.allowed.map JobStatus.value)
    .error (.jobStore ("cannot transition job " ++ toString row.id ++ " from " ++ row.status.value
      ++ " to " ++ toStatus.value ++ "; allowed: ["
      ++ ", ".intercalate (values.map fun value => "'" ++ value ++ "'") ++ "]"))
  else if foreign row agentId then
    .error (.jobStore ("job " ++ toString row.id ++ " is claimed by "
      ++ py.repr (.str (row.agentId.getD "")) ++ ", not " ++ py.repr agentId))
  else .ok ()

/-- A value of a column that `COALESCE` keeps when it is `None`. -/
def nullable (value : Json) : Except StoreError (Option String) :=
  match value with
  | .null => .ok none
  | .str text => .ok (some text)
  | other =>
    match py.columnText other with
    | .ok text => .ok (some text)
    | .error e => .error (.python e)

/-- `json.dumps(report, sort_keys=True) if report else None`. -/
def reportText (report : Json) : Except StoreError (Option String) :=
  if truthy report then
    match py.dumps report with
    | .ok text => .ok (some text)
    | .error e => .error (.python e)
  else .ok none

/-- What `transition` writes into the row of the job: it raises before the `UPDATE`, or the values of
    `detail` and `report_json`. -/
def prepareMove (row : JobRow) (toStatus : JobStatus) (agentId detail report : Json) :
    Except StoreError (Option String × Option String) := do
  checkMove py row toStatus agentId
  let reportJson ← reportText py report
  let detail ← nullable py detail
  return (detail, reportJson)

/-- `transition(…)`. -/
def transition (db : Database) (now : Int) (jobId : Int) (toStatus : JobStatus)
    (agentId detail report : Json) (s : Store) : Except StoreError Job × Store :=
  if db = .refuses then (.error .database, s)
  else
    match s.jobs.find jobId with
    | none => (.error (.jobStore ("job " ++ toString jobId ++ " not found")), s)
    | some row =>
      match prepareMove py row toStatus agentId detail report with
      | .error e => (.error e, s)
      | .ok (detail, reportJson) =>
        let s' := s.moveRow now toStatus detail reportJson jobId
        (db.finish (s'.getStrict py jobId), s')

/-- `sweep_timeouts()`. -/
def sweepTimeouts (db : Database) (now : Int) (s : Store) : Except StoreError (List Int) × Store :=
  if db = .refuses then (.error .database, s)
  else
    (db.finish (.ok (s.staleIds now)),
      (s.staleIds now).foldl (fun s jobId => s.sweepRow now jobId) s)

end Store

end

end TraxMania.RemoteTest
