import TraxMania.Parsers.Pipeline

/-
  The replay-parse pipeline (`ReplayParsePipeline` of `src/parsers/pipeline.py`): what a run
  fetches and the statements it sends for each replay. The sidecar files appear by their paths and
  hashes only.
-/

namespace TraxMania.Parsers
open Lib Lib.Txn Storage

/-- A connection to the database. -/
abbrev ReplayConn := Conn Exc ReplayDb

/-! ## Fetching -/

/-- The arguments of `run`. -/
structure ReplayRunArgs where
  snapshotId : Option String
  maxReplays : Option Nat
  retryTransient : Bool
  deriving DecidableEq

/-- `_UnparsedReplay`. -/
structure UnparsedReplay where
  id : Nat
  sourceReplayId : String
  rawArtifactPath : String
  rawArtifactHash : Option String
  deriving DecidableEq

/-- A selected row; one without an artifact path is not selected. -/
def toUnparsedReplay (r : ReplayRow) : Option UnparsedReplay :=
  r.rawArtifactPath.map fun path => ⟨r.id, r.sourceReplayId, path, r.rawArtifactHash⟩

/-- `_fetch_unparsed_replays`. -/
def fetchUnparsedReplays (args : ReplayRunArgs) (d : ReplayDb) : List UnparsedReplay :=
  let rows := d.replays.rows.filter fun r =>
    (r.parseStatus = .unparsed || (args.retryTransient && r.parseStatus = .failedTransient)) &&
      r.rawArtifactPath.isSome &&
      (match args.snapshotId with
        | some snapshot => decide (r.ingestionSnapshot = snapshot)
        | none => true)
  let sorted := SortBy.sortBy ReplayRow.id rows
  let limited := match args.maxReplays with
    | some limit => sorted.take limit
    | none => sorted
  limited.filterMap toUnparsedReplay

/-! ## One replay -/

/-- What the pipeline stores of the wrapper's output: `_as_int` of its finish time, the login. -/
structure ReplayOutput where
  finishTimeMs : Option Int
  playerLogin : Option String
  deriving DecidableEq

/-- A sidecar file that has been written. -/
structure Sidecar where
  path : String
  hash : String
  deriving DecidableEq

/-- What `_process_one` meets: no artifact at the path, a parser that raises, or its result; and on
success what becomes of the sidecars, with the breadcrumbs where the output has some. -/
inductive ReplayParse
  | missing
  | crashed (typeName text : String)
  | failed (status : ParseStatus) (errorCode : ParseErrorCode) (errorDetail : Option String)
  | unwritable (output : ReplayOutput) (text : String)
  | parsed (output : ReplayOutput) (breadcrumbs : Option Sidecar)

/-- `UPDATE replays SET f WHERE id = …`. -/
def updateReplay (id : Nat) (f : ReplayRow → ReplayRow) (hf : ∀ r, (f r).id = r.id)
    (d : ReplayDb) : Except Exc ReplayDb :=
  .ok { d with replays := d.replays.update (fun r => r.id = id) f hf }

/-- `_UPDATE_REPLAY_SUCCESS_SQL`. -/
def setReplaySuccess (output : ReplayOutput) (breadcrumbs : Option Sidecar) (r : ReplayRow) :
    ReplayRow :=
  { r with
    parseStatus := .success
    parseErrorCode := none
    parseErrorDetail := none
    finishTimeMs := r.finishTimeMs <|> output.finishTimeMs
    playerLogin := r.playerLogin <|> output.playerLogin
    breadcrumbsPath := breadcrumbs.map Sidecar.path
    breadcrumbsHash := breadcrumbs.map Sidecar.hash }

/-- `_UPDATE_REPLAY_FAILURE_SQL`. -/
def setReplayFailure (status : ParseStatus) (code : ParseErrorCode) (detail : Option String)
    (r : ReplayRow) : ReplayRow :=
  { r with
    parseStatus := status
    parseErrorCode := some code
    parseErrorDetail := storedDetail detail }

theorem setReplaySuccess_id (output : ReplayOutput) (breadcrumbs : Option Sidecar)
    (r : ReplayRow) : (setReplaySuccess output breadcrumbs r).id = r.id := rfl

theorem setReplayFailure_id (status : ParseStatus) (code : ParseErrorCode)
    (detail : Option String) (r : ReplayRow) :
    (setReplayFailure status code detail r).id = r.id := rfl

def updateReplaySuccess (id : Nat) (output : ReplayOutput) (breadcrumbs : Option Sidecar) :
    ReplayDb → Except Exc ReplayDb :=
  updateReplay id (setReplaySuccess output breadcrumbs) (setReplaySuccess_id output breadcrumbs)

def updateReplayFailure (id : Nat) (status : ParseStatus) (code : ParseErrorCode)
    (detail : Option String) : ReplayDb → Except Exc ReplayDb :=
  updateReplay id (setReplayFailure status code detail) (setReplayFailure_id status code detail)

/-- `_write_failure`. Its exceptions leave the run. -/
def writeReplayFailure (id : Nat) (status : ParseStatus) (code : ParseErrorCode)
    (detail : Option String) : ReplayConn Unit :=
  atomically [updateReplayFailure id status code detail]

/-- The end of `_write_success`, after the sidecars. -/
def writeReplaySuccess (id : Nat) (output : ReplayOutput) (breadcrumbs : Option Sidecar) :
    ReplayConn Unit :=
  tryCatch (atomically [updateReplaySuccess id output breadcrumbs]) fun _ => rollback

/-- `_process_one`. -/
def processReplay (row : UnparsedReplay) : ReplayParse → ReplayConn Unit
  | .missing =>
    writeReplayFailure row.id .failedTransient .ioError
      (some ("artifact missing: " ++ row.rawArtifactPath))
  | .crashed typeName text =>
    writeReplayFailure row.id .failedTransient .wrapperCrash
      (some (truncate (typeName ++ ": " ++ text)))
  | .failed status errorCode errorDetail => writeReplayFailure row.id status errorCode errorDetail
  | .unwritable _ text =>
    writeReplayFailure row.id .failedTransient .ioError (some (truncate ("sidecar write: " ++ text)))
  | .parsed output breadcrumbs => writeReplaySuccess row.id output breadcrumbs

/-- `run`, when the parser does `parse` on the rows it fetches. -/
def runReplays (args : ReplayRunArgs) (parse : UnparsedReplay → ReplayParse) : ReplayConn Unit := do
  let replays ← select (fetchUnparsedReplays args)
  forM replays fun row => processReplay row (parse row)

/-! ## Finish times -/

/-- What a parse does to a finish time: it is filled in where there is none. -/
def backfill (output : ReplayOutput) (e : Timed) : Timed :=
  { e with finishTimeMs := e.finishTimeMs <|> output.finishTimeMs }

/-- The finish times after a parse of the replay. -/
def parsedTimes (id : Nat) (output : ReplayOutput) (T : FinishTimes) : FinishTimes :=
  { T with rows := T.rows.map fun e => if e.id = id then backfill output e else e }

theorem runAll_replaySuccess {id : Nat} {output : ReplayOutput} {breadcrumbs : Option Sidecar}
    {d d' : ReplayDb} (h : runAll [updateReplaySuccess id output breadcrumbs] d = .ok d') :
    d'.finishTimes = parsedTimes id output d.finishTimes := by
  cases h
  have hupdate := finishTimes_update d (fun r => r.id = id) (setReplaySuccess output breadcrumbs)
    (setReplaySuccess_id output breadcrumbs) (fun e => e.id = id) (backfill output) (fun _ => rfl)
    fun _ => rfl
  rw [hupdate]
  simp only [parsedTimes, decide_eq_true_eq]

theorem preserves_replayFailure (T : FinishTimes) (id : Nat) (status : ParseStatus)
    (code : ParseErrorCode) (detail : Option String) :
    Preserves (fun d : ReplayDb => d.finishTimes = T) (updateReplayFailure id status code detail) := by
  intro d d' hd hd'
  cases hd'
  exact (finishTimes_kept d _ _ (setReplayFailure_id status code detail) fun _ => rfl).trans hd

theorem keeps_replayFailure (T : FinishTimes) (id : Nat) (status : ParseStatus)
    (code : ParseErrorCode) (detail : Option String) :
    Keeps (Holds (fun d => d.finishTimes = T) fun _ => True)
      (writeReplayFailure id status code detail) := by
  refine keeps_atomically ?_ ?_ <;> intro st hst <;> rw [List.mem_singleton.mp hst]
  · exact preserves_replayFailure T id status code detail
  · exact fun _ _ _ _ => trivial

/-- The output whose finish time a turn of the loop fills in. -/
def ReplayParse.written : ReplayParse → Option ReplayOutput
  | .parsed output _ => some output
  | _ => none

/-- One turn of the loop, whatever its requests meet: the finish times stay, or that of a parsed
replay is filled in. -/
theorem processReplay_spec (T : FinishTimes) (row : UnparsedReplay) (parse : ReplayParse) :
    let Filled := fun d : ReplayDb => ∃ output ∈ parse.written,
      d.finishTimes = parsedTimes row.id output T
    Triple (Holds (fun d => d.finishTimes = T) fun _ => True) (processReplay row parse)
      (fun _ => Either (fun d => d.finishTimes = T) Filled fun _ => True)
      (Either (fun d => d.finishTimes = T) Filled fun _ => True) := by
  intro Filled
  have hfailure : ∀ {m : ReplayConn Unit}, Keeps (Holds (fun d => d.finishTimes = T) fun _ => True) m →
      Triple (Holds (fun d => d.finishTimes = T) fun _ => True) m
        (fun _ => Either (fun d => d.finishTimes = T) Filled fun _ => True)
        (Either (fun d => d.finishTimes = T) Filled fun _ => True) := fun hm =>
    triple_weaken hm (fun _ h => h) (fun _ _ h => .inl h) fun _ h => .inl h
  cases parse with
  | missing => exact hfailure (keeps_replayFailure T _ _ _ _)
  | crashed typeName text => exact hfailure (keeps_replayFailure T _ _ _ _)
  | failed status errorCode errorDetail => exact hfailure (keeps_replayFailure T _ _ _ _)
  | unwritable output text => exact hfailure (keeps_replayFailure T _ _ _ _)
  | parsed output breadcrumbs =>
    have hrun : Triple (Holds (fun d => d.finishTimes = T) fun _ => True)
        (atomically [updateReplaySuccess row.id output breadcrumbs])
        (fun _ => Either (fun d => d.finishTimes = T) Filled fun _ => True)
        (Failed (fun d => d.finishTimes = T) (fun _ => True) Filled) :=
      triple_weaken (triple_atomically _)
        (fun s h => ⟨unsaved_of_holds h, fun d hd => ⟨output, rfl, by
          rw [runAll_replaySuccess hd, h.working]⟩⟩) (fun _ _ h => .inr h) fun _ h => h
    exact triple_tryCatch hrun fun _ =>
      triple_weaken triple_rollback (fun _ h => h) (fun _ _ h => .inl h) fun _ h => h

end TraxMania.Parsers
