import TraxMania.Ingestion.Workflow
import TraxMania.Parsers.ReplayPipeline

/-
  Replay ingestion (`ReplayIngestor` of `src/ingestion/orchestrator.py`), and its runs and the
  replay-parse runs against one database, step by step as in `Workflow`.

  A leaderboard entry overwrites the finish time of its replay with its own, also where it has
  none; a parse fills a finish time in where there is none. `learnTimed` keeps account of the
  replays whose finish time a parse has filled in; it is no part of the program.
-/

namespace TraxMania.Ingestion
open Lib Lib.Txn Parsers Storage

/-- `_REPLAY_SOURCE_SYSTEM`. -/
def replaySourceSystem : String := "tmx"

/-- The fields of a `TmxReplaySummary` that are stored. -/
structure TmxReplaySummary where
  replayId : String
  playerDisplayName : Option String
  finishTimeMs : Option Int
  rankMetadata : RankMetadata
  deriving DecidableEq

/-- The configuration of a `ReplayIngestor`. -/
structure ReplayIngestor where
  snapshotId : String
  createdByVersion : String
  deriving DecidableEq

/-- The row that `_upsert_replay` inserts. -/
def rankedRow (ingestor : ReplayIngestor) (summary : TmxReplaySummary) (mapId id : Nat) : ReplayRow :=
  { id := id
    sourceSystem := replaySourceSystem
    sourceReplayId := summary.replayId
    mapId := mapId
    ingestionSnapshot := ingestor.snapshotId
    playerLogin := none
    playerDisplayName := summary.playerDisplayName
    finishTimeMs := summary.finishTimeMs
    rankMetadata := summary.rankMetadata
    parseStatus := .unparsed
    parseErrorCode := none
    parseErrorDetail := none
    rawArtifactPath := none
    rawArtifactHash := none
    breadcrumbsPath := none
    breadcrumbsHash := none
    createdByVersion := ingestor.createdByVersion }

def setRank (summary : TmxReplaySummary) (mapId : Nat) (r : ReplayRow) : ReplayRow :=
  { r with
    mapId := mapId
    playerDisplayName := summary.playerDisplayName
    finishTimeMs := summary.finishTimeMs
    rankMetadata := summary.rankMetadata }

theorem setRank_id (summary : TmxReplaySummary) (mapId : Nat) (r : ReplayRow) :
    (setRank summary mapId r).id = r.id := rfl

/-- `_upsert_replay`; `known` are the maps that have a row, as `fk_replays_map` asks. -/
def upsertReplay (known : Nat → Bool) (ingestor : ReplayIngestor) (summary : TmxReplaySummary)
    (mapId : Nat) (d : ReplayDb) : ReplayDb :=
  let key := (replaySourceSystem, summary.replayId, ingestor.snapshotId)
  if !known mapId then d
  else if d.replays.rows.any fun r => r.naturalKey = key then
    { d with
      replays := d.replays.update (fun r => r.naturalKey = key) (setRank summary mapId)
        (setRank_id summary mapId) }
  else
    match d.replays.insert (rankedRow ingestor summary mapId d.nextId) with
    | some replays => { d with replays := replays, nextId := d.nextId + 1 }
    | none => d

def setReplayArtifact (contentHash artifactPath : String) (r : ReplayRow) : ReplayRow :=
  { r with rawArtifactHash := some contentHash, rawArtifactPath := some artifactPath }

theorem setReplayArtifact_id (contentHash artifactPath : String) (r : ReplayRow) :
    (setReplayArtifact contentHash artifactPath r).id = r.id := rfl

/-- `_record_replay_artifact`. -/
def recordReplayArtifact (replayId : Nat) (contentHash artifactPath : String) (d : ReplayDb) :
    ReplayDb :=
  { d with
    replays := d.replays.update (fun r => r.id = replayId)
      (setReplayArtifact contentHash artifactPath) (setReplayArtifact_id contentHash artifactPath) }

/-- `_fetch_and_store_artifact`. -/
def fetchAndStoreReplay (replayId : Nat) (response : Response) (d : ReplayDb) : ReplayDb :=
  match response with
  | .httpError => d
  | .answered statusCode digest path =>
    if statusCode ≠ 200 then d else recordReplayArtifact replayId digest path d

/-! ## Finish times -/

/-- The finish times after a leaderboard entry. -/
def rankedTimes (known : Nat → Bool) (ingestor : ReplayIngestor) (summary : TmxReplaySummary)
    (mapId : Nat) (T : FinishTimes) : FinishTimes :=
  let key := (replaySourceSystem, summary.replayId, ingestor.snapshotId)
  if !known mapId then T
  else if T.rows.any fun e => e.naturalKey = key then
    { T with
      rows := T.rows.map fun e =>
        if e.naturalKey = key then { e with finishTimeMs := summary.finishTimeMs } else e }
  else if T.nextId ∈ T.rows.map Timed.id then T
  else ⟨T.nextId + 1, T.rows ++ [⟨T.nextId, key, summary.finishTimeMs⟩]⟩

theorem upsertReplay_finishTimes (known : Nat → Bool) (ingestor : ReplayIngestor)
    (summary : TmxReplaySummary) (mapId : Nat) (d : ReplayDb) :
    (upsertReplay known ingestor summary mapId d).finishTimes =
      rankedTimes known ingestor summary mapId d.finishTimes := by
  have hany : (d.finishTimes.rows.any fun e =>
      e.naturalKey = (replaySourceSystem, summary.replayId, ingestor.snapshotId)) =
      d.replays.rows.any fun r =>
        r.naturalKey = (replaySourceSystem, summary.replayId, ingestor.snapshotId) := by
    simp only [ReplayDb.finishTimes, List.any_map]
    rfl
  have hids : d.finishTimes.rows.map Timed.id = d.replays.rows.map ReplayRow.id := by
    simp only [ReplayDb.finishTimes, List.map_map]
    rfl
  unfold upsertReplay rankedTimes
  simp only [hany, hids]
  split
  · rfl
  split
  · have hupdate := finishTimes_update d
      (fun r => r.naturalKey = (replaySourceSystem, summary.replayId, ingestor.snapshotId))
      (setRank summary mapId) (setRank_id summary mapId)
      (fun e => e.naturalKey = (replaySourceSystem, summary.replayId, ingestor.snapshotId))
      (fun e => { e with finishTimeMs := summary.finishTimeMs }) (fun _ => rfl) fun _ => rfl
    rw [hupdate]
    simp only [decide_eq_true_eq]
  · cases hins : d.replays.insert (rankedRow ingestor summary mapId d.nextId) with
    | none =>
      have hmem : d.finishTimes.nextId ∈ d.replays.rows.map ReplayRow.id :=
        Table.key_mem_of_insert_eq_none hins
      rw [if_pos hmem]
    | some replays =>
      have hfresh : d.finishTimes.nextId ∉ d.replays.rows.map ReplayRow.id :=
        Table.key_notMem_of_insert hins
      rw [if_neg hfresh]
      simp only [ReplayDb.finishTimes, Table.rows_of_insert hins, List.map_append]
      rfl

theorem fetchAndStoreReplay_finishTimes (replayId : Nat) (response : Response) (d : ReplayDb) :
    (fetchAndStoreReplay replayId response d).finishTimes = d.finishTimes := by
  cases response with
  | httpError => rfl
  | answered statusCode digest path =>
    simp only [fetchAndStoreReplay]
    split
    · rfl
    · exact finishTimes_kept d _ _ (setReplayArtifact_id digest path) fun _ => rfl

/-! ## Runs -/

/-- The database with the connection of the replay-parse runs, and what is left of the current
run. -/
structure ReplayWorld where
  session : Session Exc ReplayDb
  pending : List UnparsedReplay

inductive ReplayInput
  /-- A call of `run`, with the faults that its requests will meet: its fetch. -/
  | begin (handover : Handover) (args : ReplayRunArgs) (faults : List (Option (Fault Exc)))
  /-- The next turn of the loop, and what the parser and the sidecar files do. -/
  | process (parse : ReplayParse)
  /-- A leaderboard entry of a map. -/
  | upsert (ingestor : ReplayIngestor) (summary : TmxReplaySummary) (mapId : Nat)
  /-- An artifact is downloaded for a replay. -/
  | download (replayId : Nat) (response : Response)

/-- The connection with which `run` starts. -/
def replayConnection (handover : Handover) (faults : List (Option (Fault Exc)))
    (s : Session Exc ReplayDb) : Session Exc ReplayDb :=
  match handover with
  | .reconnect => Session.start s.committed faults
  | .commit => (perform commit { s with faults := faults }).2
  | .keep => { s with faults := faults }

/-- What another connection commits. -/
def ReplayWorld.elsewhere (f : ReplayDb → ReplayDb) (w : ReplayWorld) : ReplayWorld :=
  { w with
    session := { w.session with committed := f w.session.committed, working := f w.session.working } }

/-- One step, when the maps in `known` have a row. An exception ends the run. -/
def replayStep (known : Nat → Bool) (w : ReplayWorld) : ReplayInput → ReplayWorld
  | .begin handover args faults =>
    match perform (select (fetchUnparsedReplays args)) (replayConnection handover faults w.session) with
    | (.ok rows, s) => ⟨s, rows⟩
    | (.error _, s) => ⟨s, []⟩
  | .process parse =>
    match w.pending with
    | [] => w
    | row :: rest =>
      match perform (processReplay row parse) w.session with
      | (.ok _, s) => ⟨s, rest⟩
      | (.error _, s) => ⟨s, []⟩
  | .upsert ingestor summary mapId => w.elsewhere (upsertReplay known ingestor summary mapId)
  | .download replayId response => w.elsewhere (fetchAndStoreReplay replayId response)

theorem replayStep_process_nil {known : Nat → Bool} {w : ReplayWorld} {parse : ReplayParse}
    (h : w.pending = []) : replayStep known w (.process parse) = w := by simp [replayStep, h]

/-- The replays whose finish time a parse has filled in. -/
def learnTimed (known : Nat → Bool) (w : ReplayWorld) (B : Nat → Bool) (i : ReplayInput)
    (id : Nat) : Bool :=
  match w.session.committed.replays.find id, i with
  | none, _ => false
  | some r, .process _ =>
    B id || (r.finishTimeMs.isNone &&
      ((replayStep known w i).session.committed.replays.find id).any fun r' => r'.finishTimeMs.isSome)
  | some _, _ => B id

/-- A finish time that a parse has filled in is there. -/
def TimesKept (d : ReplayDb) (B : Nat → Bool) : Prop :=
  ∀ r ∈ d.replays.rows, B r.id → r.finishTimeMs.isSome

instance (d : ReplayDb) (B : Nat → Bool) : Decidable (TimesKept d B) :=
  inferInstanceAs (Decidable (∀ r ∈ d.replays.rows, B r.id → r.finishTimeMs.isSome))

/-- A leaderboard entry has a finish time for a replay whose finish time a parse has filled in. -/
def RanksTimed (w : ReplayWorld) (B : Nat → Bool) : ReplayInput → Prop
  | .upsert ingestor summary _ =>
    ∀ r ∈ w.session.committed.replays.rows,
      r.naturalKey = (replaySourceSystem, summary.replayId, ingestor.snapshotId) → B r.id →
      summary.finishTimeMs.isSome
  | _ => True

instance (w : ReplayWorld) (B : Nat → Bool) : (i : ReplayInput) → Decidable (RanksTimed w B i)
  | .upsert ingestor summary _ =>
    inferInstanceAs (Decidable (∀ r ∈ w.session.committed.replays.rows,
      r.naturalKey = (replaySourceSystem, summary.replayId, ingestor.snapshotId) → B r.id →
      summary.finishTimeMs.isSome))
  | .begin _ _ _ => .isTrue trivial
  | .process _ => .isTrue trivial
  | .download _ _ => .isTrue trivial

/-- What is committed and what the open transaction has made of it have the same finish times. -/
def OneTiming (w : ReplayWorld) : Prop :=
  ∃ T, Holds (fun d : ReplayDb => d.finishTimes = T) (fun _ => True) w.session

/-- Before the first run. -/
structure ReplaysStarted (w : ReplayWorld) : Prop where
  working : w.session.working = w.session.committed
  view : w.session.view = none
  pending : w.pending = []

theorem oneTiming_start {w : ReplayWorld} (hw : ReplaysStarted w) : OneTiming w :=
  ⟨_, rfl, by rw [hw.working], fun _ _ => trivial⟩

section Step

variable {known : Nat → Bool} {w : ReplayWorld} {B : Nat → Bool} {i : ReplayInput}

/-- A replay keeps its finish time in a step that leaves it one when it had one before. -/
theorem learnTimed_isSome {r r' : ReplayRow} (hB : TimesKept w.session.committed B)
    (hr : r ∈ w.session.committed.replays.rows)
    (hr' : r' ∈ (replayStep known w i).session.committed.replays.rows) (hid : r.id = r'.id)
    (htime : B r.id → r.finishTimeMs.isSome → r'.finishTimeMs.isSome)
    (h : learnTimed known w B i r'.id) : r'.finishTimeMs.isSome := by
  have hfind : w.session.committed.replays.find r'.id = some r := Table.find_eq_some.mpr ⟨hr, hid⟩
  have hfind' : (replayStep known w i).session.committed.replays.find r'.id = some r' :=
    Table.find_eq_some.mpr ⟨hr', rfl⟩
  have hold : B r'.id → r'.finishTimeMs.isSome := fun h =>
    have h : B r.id := hid ▸ h
    htime h (hB r hr h)
  unfold learnTimed at h
  rw [hfind] at h
  cases i with
  | process parse =>
    simp only [hfind', Bool.or_eq_true, Bool.and_eq_true, Option.any_some] at h
    rcases h with h | h
    · exact hold h
    · exact h.2
  | begin handover args faults => exact hold h
  | upsert ingestor summary mapId => exact hold h
  | download replayId response => exact hold h

/-- A step that leaves the finish times alone. -/
theorem timesKept_of_same (hB : TimesKept w.session.committed B)
    (h : (replayStep known w i).session.committed.finishTimes = w.session.committed.finishTimes) :
    TimesKept (replayStep known w i).session.committed (learnTimed known w B i) := by
  intro r' hr' hlearnt
  obtain ⟨r, hr, he⟩ := mem_finishTimes.mp (h ▸ mem_finishTimes.mpr ⟨r', hr', rfl⟩)
  have htime : r.finishTimeMs = r'.finishTimeMs := congrArg Timed.finishTimeMs he
  exact learnTimed_isSome hB hr hr' (congrArg Timed.id he) (fun _ h => htime ▸ h) hlearnt

theorem oneTiming_begin {T : FinishTimes}
    (hT : Holds (fun d : ReplayDb => d.finishTimes = T) (fun _ => True) w.session)
    (handover : Handover) (args : ReplayRunArgs) (faults : List (Option (Fault Exc))) :
    Holds (fun d : ReplayDb => d.finishTimes = T) (fun _ => True)
      (replayStep known w (.begin handover args faults)).session := by
  have hconn : Holds (fun d : ReplayDb => d.finishTimes = T) (fun _ => True)
      (replayConnection handover faults w.session) := by
    cases handover with
    | reconnect =>
      exact holds_start (J := fun d : ReplayDb => d.finishTimes = T) hT.committed faults
    | keep => exact holds_faults hT faults
    | commit => exact keeps_perform keeps_commit (holds_faults hT faults)
  have hselect := triple_select (fun _ _ => trivial) (fetchUnparsedReplays args) _ hconn
  simp only [replayStep]
  rcases hrun : perform (select (fetchUnparsedReplays args))
    (replayConnection handover faults w.session) with ⟨_ | rows, s⟩ <;> rw [hrun] at hselect
  · exact hselect
  · exact hselect.1

theorem timesKept_process {parse : ReplayParse} (hT : OneTiming w)
    (hB : TimesKept w.session.committed B) :
    OneTiming (replayStep known w (.process parse)) ∧
      TimesKept (replayStep known w (.process parse)).session.committed
        (learnTimed known w B (.process parse)) := by
  obtain ⟨T, hT⟩ := hT
  cases hpending : w.pending with
  | nil =>
    have hstep : replayStep known w (.process parse) = w := replayStep_process_nil hpending
    exact ⟨⟨T, by rw [hstep]; exact hT⟩, timesKept_of_same hB (by rw [hstep])⟩
  | cons row rest =>
    have hspec := processReplay_spec T row parse _ hT
    have hsession : Either (fun d : ReplayDb => d.finishTimes = T)
        (fun d => ∃ output ∈ parse.written, d.finishTimes = parsedTimes row.id output T)
        (fun _ => True) (replayStep known w (.process parse)).session := by
      simp only [replayStep, hpending]
      rcases hrun : perform (processReplay row parse) w.session with ⟨_ | _, s⟩ <;>
        rw [hrun] at hspec <;> exact hspec
    rcases hsession with h | h
    · exact ⟨⟨T, h⟩, timesKept_of_same hB (h.committed.trans hT.committed.symm)⟩
    · obtain ⟨output, houtput, hcommitted⟩ := h.committed
      refine ⟨⟨parsedTimes row.id output T, h.weaken (fun d hd => ?_) fun _ _ => trivial⟩, ?_⟩
      · obtain ⟨output', houtput', hd⟩ := hd
        rw [hd, Option.some.inj (houtput.symm.trans houtput')]
      · intro r' hr' hlearnt
        have hmem := hcommitted ▸ mem_finishTimes.mpr ⟨r', hr', rfl⟩
        obtain ⟨e, he, heq⟩ := List.mem_map.mp hmem
        obtain ⟨r, hr, rfl⟩ := mem_finishTimes.mp (hT.committed.symm ▸ he)
        have hid : r.id = r'.id := by
          rw [show r'.id = r'.timed.id from rfl, ← heq]
          split <;> rfl
        refine learnTimed_isSome hB hr hr' hid (fun _ h => ?_) hlearnt
        rw [show r'.finishTimeMs = r'.timed.finishTimeMs from rfl, ← heq]
        split
        · obtain ⟨time, htime⟩ := Option.isSome_iff_exists.mp h
          have htimed : r.timed.finishTimeMs = some time := htime
          simp [backfill, htimed]
        · exact h

theorem timesKept_upsert {ingestor : ReplayIngestor} {summary : TmxReplaySummary} {mapId : Nat}
    (hB : TimesKept w.session.committed B) (hcond : RanksTimed w B (.upsert ingestor summary mapId)) :
    TimesKept (replayStep known w (.upsert ingestor summary mapId)).session.committed
      (learnTimed known w B (.upsert ingestor summary mapId)) := by
  intro r' hr' hlearnt
  have hrow : r' ∈ (upsertReplay known ingestor summary mapId w.session.committed).replays.rows := hr'
  unfold upsertReplay at hrow
  simp only at hrow
  split at hrow
  · exact learnTimed_isSome hB hrow hr' rfl (fun _ h => h) hlearnt
  split at hrow
  · obtain ⟨r, hr, rfl⟩ := List.mem_map.mp hrow
    refine learnTimed_isSome hB hr hr' (by split <;> rfl) (fun hknown h => ?_) hlearnt
    split
    · next hkey => exact hcond r hr (by simpa using hkey) hknown
    · exact h
  · split at hrow
    · next replays hins =>
      rw [show ({ w.session.committed with replays := replays, nextId := _ } : ReplayDb).replays.rows =
        replays.rows from rfl, Table.rows_of_insert hins] at hrow
      rcases List.mem_append.mp hrow with hr | hnew
      · exact learnTimed_isSome hB hr hr' rfl (fun _ h => h) hlearnt
      · have hid : r'.id = w.session.committed.nextId := by rw [List.mem_singleton.mp hnew]; rfl
        have hnone : w.session.committed.replays.find r'.id = none := by
          rw [Table.find_eq_none]
          intro r hr he
          exact Table.key_notMem_of_insert hins (List.mem_map.mpr ⟨r, hr, he.trans hid⟩)
        simp [learnTimed, hnone] at hlearnt
    · exact learnTimed_isSome hB hrow hr' rfl (fun _ h => h) hlearnt

theorem timesKept_step (hT : OneTiming w) (hB : TimesKept w.session.committed B)
    (hcond : RanksTimed w B i) :
    OneTiming (replayStep known w i) ∧
      TimesKept (replayStep known w i).session.committed (learnTimed known w B i) := by
  cases i with
  | begin handover args faults =>
    obtain ⟨T, hT⟩ := hT
    have h : Holds (fun d : ReplayDb => d.finishTimes = T) (fun _ => True)
        (replayStep known w (.begin handover args faults)).session :=
      oneTiming_begin hT handover args faults
    exact ⟨⟨T, h⟩, timesKept_of_same hB (h.committed.trans hT.committed.symm)⟩
  | process parse => exact timesKept_process hT hB
  | upsert ingestor summary mapId =>
    obtain ⟨T, hT⟩ := hT
    have hranked : ∀ d : ReplayDb, d.finishTimes = T →
        (upsertReplay known ingestor summary mapId d).finishTimes =
          rankedTimes known ingestor summary mapId T := fun d hd => by
      rw [upsertReplay_finishTimes, hd]
    exact ⟨⟨_, hranked _ hT.committed, hranked _ hT.working, fun _ _ => trivial⟩,
      timesKept_upsert hB hcond⟩
  | download replayId response =>
    obtain ⟨T, hT⟩ := hT
    have hstored : ∀ d : ReplayDb, d.finishTimes = T →
        (fetchAndStoreReplay replayId response d).finishTimes = T := fun d hd =>
      (fetchAndStoreReplay_finishTimes replayId response d).trans hd
    exact ⟨⟨T, hstored _ hT.committed, hstored _ hT.working, fun _ _ => trivial⟩,
      timesKept_of_same hB (fetchAndStoreReplay_finishTimes replayId response _)⟩

end Step

end TraxMania.Ingestion
