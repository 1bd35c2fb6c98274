import TraxMania.Parsers.ParseStep

/-
  What a map-ingestion run does to the database (`src/ingestion/orchestrator.py`): the upsert of a
  listed map, and the recording of a downloaded artifact. Each is a transaction on one row of
  `maps`, so that it happens as a whole or not at all.

  Ingestion runs and parse runs work against one database. The calls of `MapParsePipeline.run` come
  one after another, each on a new connection or on the one before it; between any two requests for
  a map, other connections may upsert maps and record artifacts. A parse writes one map in one
  transaction, and what an ingestion run does to that map comes before or after it: so one turn of
  the loop is one step.
-/

namespace TraxMania.Ingestion

open Lib Parsers Storage Lib.Txn

variable {φ : Type}

/-- `_MAP_SOURCE_SYSTEM`. -/
def mapSourceSystem : String := "tmx"

/-- The fields of a `TmxMapSummary` that are stored. -/
structure TmxMapSummary where
  tmxId : String
  listing : Listing
  deriving DecidableEq

/-- The configuration of a `MapIngestor`. -/
structure MapIngestor where
  snapshotId : String
  parserVersion : String
  createdByVersion : String
  deriving DecidableEq

/-- The row that `_upsert_map` inserts. -/
def listedRow (ingestor : MapIngestor) (summary : TmxMapSummary) (id : Nat) : MapRow :=
  { id := id
    sourceSystem := mapSourceSystem
    sourceMapId := summary.tmxId
    ingestionSnapshot := ingestor.snapshotId
    listing := summary.listing
    scenery := ⟨none, none, none, none, none, none, none, none, none⟩
    decorationParseStatus := .unparsed
    parserVersion := ingestor.parserVersion
    parseStatus := .unparsed
    parseErrorCode := none
    parseErrorDetail := none
    rawArtifactPath := none
    rawArtifactHash := none
    createdByVersion := ingestor.createdByVersion }

def setListing (summary : TmxMapSummary) (r : MapRow) : MapRow := { r with listing := summary.listing }

theorem setListing_id (summary : TmxMapSummary) (r : MapRow) : (setListing summary r).id = r.id := rfl

/-- `_upsert_map`: `INSERT … ON DUPLICATE KEY UPDATE` of the listing's columns. -/
def upsertMap (ingestor : MapIngestor) (summary : TmxMapSummary) (d : Db φ) : Db φ :=
  let key := (mapSourceSystem, summary.tmxId, ingestor.snapshotId)
  if d.maps.rows.any fun r => r.naturalKey = key then
    { d with
      maps := d.maps.update (fun r => r.naturalKey = key) (setListing summary)
        (setListing_id summary) }
  else
    match d.maps.insert (listedRow ingestor summary d.nextId) with
    | some maps => { d with maps := maps, nextId := d.nextId + 1 }
    | none => d

def setArtifact (contentHash artifactPath : String) (r : MapRow) : MapRow :=
  { r with rawArtifactHash := some contentHash, rawArtifactPath := some artifactPath }

theorem setArtifact_id (contentHash artifactPath : String) (r : MapRow) :
    (setArtifact contentHash artifactPath r).id = r.id := rfl

/-- `_record_artifact`. -/
def recordArtifact (mapId : Nat) (contentHash artifactPath : String) (d : Db φ) : Db φ :=
  { d with
    maps := d.maps.update (fun r => r.id = mapId) (setArtifact contentHash artifactPath)
      (setArtifact_id contentHash artifactPath) }

/-- The answer to a download, with what `ArtifactStore.write` makes of its content. -/
inductive Response
  | httpError
  | answered (statusCode : Nat) (digest path : String)
  deriving DecidableEq

/-- `_fetch_and_store_artifact`. -/
def fetchAndStoreArtifact (mapId : Nat) (response : Response) (d : Db φ) : Db φ :=
  match response with
  | .httpError => d
  | .answered statusCode digest path =>
    if statusCode ≠ 200 then d else recordArtifact mapId digest path d

/-! ## What the two change -/

/-- An upsert updates the listing of the rows it finds, or adds a new row. -/
theorem upsertMap_eq (ingestor : MapIngestor) (summary : TmxMapSummary) (d : Db φ) :
    (∃ p, upsertMap ingestor summary d =
      { d with maps := d.maps.update p (setListing summary) (setListing_id summary) }) ∨
    (∃ maps, d.maps.insert (listedRow ingestor summary d.nextId) = some maps ∧
      upsertMap ingestor summary d = { d with maps := maps, nextId := d.nextId + 1 }) ∨
    upsertMap ingestor summary d = d := by
  unfold upsertMap
  simp only
  split
  · exact .inl ⟨_, rfl⟩
  · split
    · next maps hins => exact .inr (.inl ⟨maps, hins, rfl⟩)
    · exact .inr (.inr rfl)

/-- A download records an artifact, or changes nothing. -/
theorem fetchAndStoreArtifact_eq (mapId : Nat) (response : Response) (d : Db φ) :
    (∃ digest path, response = .answered 200 digest path ∧
      fetchAndStoreArtifact mapId response d = recordArtifact mapId digest path d) ∨
    fetchAndStoreArtifact mapId response d = d := by
  cases response with
  | httpError => exact .inr rfl
  | answered statusCode digest path =>
    simp only [fetchAndStoreArtifact]
    split
    · exact .inr rfl
    · next h =>
      have hcode : statusCode = 200 := by simpa using h
      exact .inl ⟨digest, path, by rw [hcode], rfl⟩

@[simp] theorem upsertMap_placements (ingestor : MapIngestor) (summary : TmxMapSummary)
    (d : Db φ) : (upsertMap ingestor summary d).placements = d.placements := by
  rcases upsertMap_eq ingestor summary d with ⟨p, h⟩ | ⟨maps, _, h⟩ | h <;> rw [h]

@[simp] theorem fetchAndStoreArtifact_placements (mapId : Nat) (response : Response) (d : Db φ) :
    (fetchAndStoreArtifact mapId response d).placements = d.placements := by
  rcases fetchAndStoreArtifact_eq mapId response d with ⟨_, _, _, h⟩ | h <;> rw [h]
  rfl

/-! ## Sources -/

/-- What an upsert does to the sources. -/
def upsertSources (ingestor : MapIngestor) (summary : TmxMapSummary) (S : Sources) : Sources :=
  let key := (mapSourceSystem, summary.tmxId, ingestor.snapshotId)
  if S.rows.any fun s => s.naturalKey = key then S
  else if S.nextId ∈ S.rows.map MapSource.id then S
  else ⟨S.nextId + 1, S.rows ++ [⟨S.nextId, key, none, none⟩]⟩

/-- What a download does to the sources. -/
def downloadSources (mapId : Nat) (response : Response) (S : Sources) : Sources :=
  match response with
  | .httpError => S
  | .answered statusCode digest path =>
    if statusCode ≠ 200 then S
    else { S with rows := S.rows.map fun s =>
      if s.id = mapId then { s with artifactPath := some path, artifactHash := some digest } else s }

theorem upsertMap_sources (ingestor : MapIngestor) (summary : TmxMapSummary) (d : Db φ) :
    (upsertMap ingestor summary d).sources = upsertSources ingestor summary d.sources := by
  have hany : (d.sources.rows.any fun s =>
      s.naturalKey = (mapSourceSystem, summary.tmxId, ingestor.snapshotId)) =
      d.maps.rows.any fun r =>
        r.naturalKey = (mapSourceSystem, summary.tmxId, ingestor.snapshotId) := by
    simp only [Db.sources, List.any_map]
    rfl
  have hids : d.sources.rows.map MapSource.id = d.maps.rows.map MapRow.id := by
    simp only [Db.sources, List.map_map]
    rfl
  unfold upsertMap upsertSources
  simp only [hany, hids]
  split
  · exact sources_update d _ _ _ fun _ => rfl
  · cases hins : d.maps.insert (listedRow ingestor summary d.nextId) with
    | none =>
      have hmem : d.sources.nextId ∈ d.maps.rows.map MapRow.id :=
        Table.key_mem_of_insert_eq_none hins
      rw [if_pos hmem]
    | some maps =>
      have hfresh : d.sources.nextId ∉ d.maps.rows.map MapRow.id := Table.key_notMem_of_insert hins
      rw [if_neg hfresh]
      simp only [Db.sources, Table.rows_of_insert hins, List.map_append]
      rfl

theorem fetchAndStoreArtifact_sources (mapId : Nat) (response : Response) (d : Db φ) :
    (fetchAndStoreArtifact mapId response d).sources =
      downloadSources mapId response d.sources := by
  unfold fetchAndStoreArtifact downloadSources
  cases response with
  | httpError => rfl
  | answered statusCode digest path =>
    simp only
    split
    · rfl
    · simp only [Db.sources, List.map_map]
      congr 1
      show (d.maps.rows.map fun r => if decide (r.id = mapId) then setArtifact digest path r else r).map
        MapRow.source = _
      rw [List.map_map]
      refine List.map_congr_left fun r _ => ?_
      simp only [Function.comp, decide_eq_true_eq]
      by_cases h : r.id = mapId
      · rw [if_pos h, if_pos (show r.source.id = mapId from h)]
        rfl
      · rw [if_neg h, if_neg (show ¬ r.source.id = mapId from h)]

/-- A map that has a row keeps one. -/
theorem upsertSources_knows {ingestor : MapIngestor} {summary : TmxMapSummary} {S : Sources}
    {id : Nat} (h : S.Knows id) : (upsertSources ingestor summary S).Knows id := by
  obtain ⟨s, hs, hid⟩ := h
  unfold upsertSources
  simp only
  split
  · exact ⟨s, hs, hid⟩
  · split
    · exact ⟨s, hs, hid⟩
    · exact ⟨s, List.mem_append_left _ hs, hid⟩

theorem downloadSources_knows {mapId : Nat} {response : Response} {S : Sources} {id : Nat}
    (h : S.Knows id) : (downloadSources mapId response S).Knows id := by
  obtain ⟨s, hs, hid⟩ := h
  unfold downloadSources
  cases response with
  | httpError => exact ⟨s, hs, hid⟩
  | answered statusCode digest path =>
    simp only
    split
    · exact ⟨s, hs, hid⟩
    · refine ⟨_, List.mem_map_of_mem hs, ?_⟩
      split <;> exact hid

/-! ## Ingestion and parse runs -/

/-- The database with the connection of the parse runs, and what is left of the current run. -/
structure World (φ : Type) where
  session : Session Exc (Db φ)
  pipeline : MapParsePipeline
  pending : List UnparsedMap

/-- How a call of `run` comes by its connection: a new one, the last one after the caller's commit
(`open_stage_run` and `close_stage_run` commit), or the last one as it was left. -/
inductive Handover
  | reconnect
  | commit
  | keep
  deriving DecidableEq

inductive Input (φ : Type)
  /-- A call of `run`, with the faults that its requests will meet: its fetch. -/
  | begin (handover : Handover) (pipeline : MapParsePipeline) (args : RunArgs)
      (faults : List (Option (Fault Exc)))
  /-- The next turn of the loop, and what the parser does. -/
  | process (parse : Parse φ)
  /-- A map is listed. -/
  | upsert (ingestor : MapIngestor) (summary : TmxMapSummary)
  /-- An artifact is downloaded for a map. -/
  | download (mapId : Nat) (response : Response)

/-- The connection with which `run` starts. -/
def handOver (handover : Handover) (faults : List (Option (Fault Exc)))
    (s : Session Exc (Db φ)) : Session Exc (Db φ) :=
  match handover with
  | .reconnect => Session.start s.committed faults
  | .commit => (perform commit { s with faults := faults }).2
  | .keep => { s with faults := faults }

/-- What another connection commits; the snapshot of an open transaction does not see it. -/
def commitElsewhere (f : Db φ → Db φ) (s : Session Exc (Db φ)) : Session Exc (Db φ) :=
  { s with committed := f s.committed, working := f s.working }

/-- One step. An exception ends the run. -/
def step (w : World φ) : Input φ → World φ
  | .begin handover pipeline args faults =>
    match perform (select (fetchUnparsed args)) (handOver handover faults w.session) with
    | (.ok rows, s) => ⟨s, pipeline, rows⟩
    | (.error _, s) => ⟨s, pipeline, []⟩
  | .process parse =>
    match w.pending with
    | [] => w
    | row :: rest =>
      match perform (processOne w.pipeline row parse) w.session with
      | (.ok _, s) => { w with session := s, pending := rest }
      | (.error _, s) => { w with session := s, pending := [] }
  | .upsert ingestor summary =>
    { w with session := commitElsewhere (upsertMap ingestor summary) w.session }
  | .download mapId response =>
    { w with session := commitElsewhere (fetchAndStoreArtifact mapId response) w.session }

/-- Before the first run. -/
structure Started (w : World φ) : Prop where
  working : w.session.working = w.session.committed
  view : w.session.view = none
  pending : w.pending = []

/-! ## One step -/

section Rules

variable {J J' K : Db φ → Prop} {w : World φ}

theorem holds_of_started (hw : Started w) (h : J w.session.committed) : Holds J K w.session :=
  ⟨h, by rw [hw.working]; exact h, fun v hv => by simp [hw.view] at hv⟩

theorem holds_handOver (handover : Handover) (faults : List (Option (Fault Exc)))
    (h : Holds J K w.session) : Holds J K (handOver handover faults w.session) := by
  cases handover with
  | reconnect => exact holds_start h.committed faults
  | keep => exact holds_faults h faults
  | commit => exact keeps_perform keeps_commit (holds_faults h faults)

/-- A run begins with what a fetch gives, or its fetch has raised. -/
theorem step_begin (hJK : ∀ d, J d → K d) (h : Holds J K w.session) (handover : Handover)
    (pipeline : MapParsePipeline) (args : RunArgs) (faults : List (Option (Fault Exc))) :
    Holds J K (step w (.begin handover pipeline args faults)).session ∧
      ((step w (.begin handover pipeline args faults)).pending = [] ∨
        ∃ d, K d ∧ (step w (.begin handover pipeline args faults)).pending =
          fetchUnparsed args d) := by
  have hselect := triple_select hJK (fetchUnparsed args) _ (holds_handOver handover faults h)
  simp only [step]
  rcases hrun : perform (select (fetchUnparsed args)) (handOver handover faults w.session) with
    ⟨_ | rows, s⟩ <;> rw [hrun] at hselect
  · exact ⟨hselect, .inl rfl⟩
  · obtain ⟨hs, d, hd, hrows⟩ := hselect
    exact ⟨hs, .inr ⟨d, hd, hrows⟩⟩

theorem step_process_nil {parse : Parse φ} (h : w.pending = []) : step w (.process parse) = w := by
  simp [step, h]

/-- A turn of the loop does all of its map's parse or none of it. -/
theorem step_process {row : UnparsedMap} {rest : List UnparsedMap} {parse : Parse φ}
    (hpending : w.pending = row :: rest) (h : Holds J K w.session)
    (hJ : KeptOutsideParse J w.pipeline row parse) (hK : KeptOutsideParse K w.pipeline row parse)
    (hparse : ∀ output rows ws, fullParse row parse = some output →
      blockRows w.pipeline row output.blocks = some rows →
      ∀ d d', J d → runAll (parseResultStatements w.pipeline row rows ws output) d = .ok d' →
        J' d') :
    Either J J' K (step w (.process parse)).session ∧
      ((step w (.process parse)).pending = rest ∨ (step w (.process parse)).pending = []) := by
  have hspec := processOne_spec hJ hK hparse _ h
  simp only [step, hpending]
  rcases hrun : perform (processOne w.pipeline row parse) w.session with ⟨_ | _, s⟩ <;>
    rw [hrun] at hspec
  · exact ⟨hspec, .inr rfl⟩
  · exact ⟨hspec, .inl rfl⟩

theorem holds_commitElsewhere {s : Session Exc (Db φ)} {f : Db φ → Db φ} (h : Holds J K s)
    (hf : ∀ d, J d → J' (f d)) : Holds J' K (commitElsewhere f s) :=
  ⟨hf _ h.committed, hf _ h.working, h.view⟩

end Rules

/-! ## A whole run -/

end TraxMania.Ingestion
