import TraxMania.Ingestion.Workflow

/-
  A map is parsed once. The archive of a database is the write-once ledger that the parse pipeline
  keeps in it: under a map, the parser version and the blocks of its successful parse. Every step
  in which a retro-fill's parse succeeds leaves the archive alone or adds one entry to it, so that
  no run changes an entry.

  A retro-fill whose artifact is missing, or whose parse fails, goes through `_write_failure`,
  which takes the map's `parse_status` away: the entry is lost although its blocks are still there,
  and a retry under another parser version stores the blocks a second time.
-/

namespace TraxMania.Ingestion
open Lib Lib.Txn Lib.Transition Parsers Storage

variable {φ : Type}

/-! ## The archive -/

/-- The parser version and the blocks of a map's parse. -/
abbrev Entry (φ : Type) := String × List (BlockRow φ)

abbrev Archive (φ : Type) := Ledger Nat (Entry φ)

/-- The version of the successful parse, where the row has one. -/
def parsedVersion (r : MapRow) : Option String :=
  if r.parseStatus = .success then some r.parserVersion else none

/-- What the database says has been parsed. -/
def archive (d : Db φ) : Archive φ := fun id =>
  ((d.maps.find id).bind parsedVersion).map fun version => (version, d.blocksOf id)

theorem parsedVersion_eq_some {r : MapRow} {version : String} :
    parsedVersion r = some version ↔ r.parseStatus = .success ∧ r.parserVersion = version := by
  simp [parsedVersion]

theorem archive_eq_some {d : Db φ} {id : Nat} {e : Entry φ} :
    archive d id = some e ↔ d.ParsedAs id e.1 ∧ d.blocksOf id = e.2 := by
  simp only [archive, Option.map_eq_some_iff, Option.bind_eq_some_iff, Table.find_eq_some,
    parsedVersion_eq_some]
  constructor
  · rintro ⟨version, ⟨r, ⟨hr, hid⟩, hstatus, hversion⟩, rfl⟩
    exact ⟨⟨r, hr, hid, hstatus, hversion⟩, rfl⟩
  · rintro ⟨⟨r, hr, hid, hstatus, hversion⟩, hblocks⟩
    exact ⟨e.1, ⟨r, ⟨hr, hid⟩, hstatus, hversion⟩, by rw [hblocks]⟩

theorem archive_eq_none {d : Db φ} {r : MapRow} (hr : r ∈ d.maps.rows) :
    archive d r.id = none ↔ r.parseStatus ≠ .success := by
  have hfind : d.maps.find r.id = some r := Table.find_eq_some.mpr ⟨hr, rfl⟩
  simp [archive, hfind, parsedVersion]

/-- An update that leaves every version alone leaves the archive alone. -/
theorem archive_update (d : Db φ) (p : MapRow → Bool) (f : MapRow → MapRow)
    (hf : ∀ r, (f r).id = r.id)
    (h : ∀ r ∈ d.maps.rows, p r → parsedVersion (f r) = parsedVersion r) :
    archive { d with maps := d.maps.update p f hf } = archive d := by
  funext id
  simp only [archive, Table.find_update]
  cases hfind : d.maps.find id with
  | none => rfl
  | some r =>
    simp only [Option.map_some, Option.bind_some]
    split
    · next hp =>
      rw [h r (Table.find_eq_some.mp hfind).1 hp]
      rfl
    · rfl

/-! ## Databases that hold an archive -/

/-- The sources and the archive of a database in which only parsed maps have blocks. -/
structure Archived (S : Sources) (A : Archive φ) (d : Db φ) : Prop where
  sources : d.sources = S
  archive : archive d = A
  unparsed : ∀ id, A id = none → d.blocksOf id = []

/-- A snapshot shows the same archive, of maps that have a row by now. -/
structure Shown (S : Sources) (A : Archive φ) (d : Db φ) : Prop where
  known : ∀ r ∈ d.maps.rows, S.Knows r.id
  archive : archive d = A

theorem shown_of_archived {S : Sources} {A : Archive φ} {d : Db φ} (h : Archived S A d) :
    Shown S A d :=
  ⟨fun r hr => by rw [← h.sources]; exact sources_knows.mpr ⟨r, hr, rfl⟩, h.archive⟩

section Statements

variable {S : Sources} {A : Archive φ}

theorem archived_update {d : Db φ} (hd : Archived S A d) (p : MapRow → Bool) (f : MapRow → MapRow)
    (hf : ∀ r, (f r).id = r.id) (hsource : ∀ r, (f r).source = r.source)
    (h : ∀ r ∈ d.maps.rows, p r → parsedVersion (f r) = parsedVersion r) :
    Archived S A { d with maps := d.maps.update p f hf } :=
  ⟨(sources_update d p f hf hsource).trans hd.sources, (archive_update d p f hf h).trans hd.archive,
    hd.unparsed⟩

theorem shown_update {d : Db φ} (hd : Shown S A d) (p : MapRow → Bool) (f : MapRow → MapRow)
    (hf : ∀ r, (f r).id = r.id)
    (h : ∀ r ∈ d.maps.rows, p r → parsedVersion (f r) = parsedVersion r) :
    Shown S A { d with maps := d.maps.update p f hf } := by
  refine ⟨fun r hr => ?_, (archive_update d p f hf h).trans hd.archive⟩
  obtain ⟨r', hr', rfl⟩ := List.mem_map.mp hr
  have hid : (if p r' then f r' else r').id = r'.id := by
    split
    · exact hf r'
    · rfl
  rw [hid]
  exact hd.known r' hr'

/-- Refreshing the scenery keeps what is parsed. -/
theorem parsedVersion_setScenery (scenery : Scenery) (r : MapRow) :
    parsedVersion (setScenery scenery r) = parsedVersion r := rfl

/-- Writing a failure for a map that is not parsed keeps what is parsed. -/
theorem parsedVersion_setFailure (p : MapParsePipeline) {status : ParseStatus}
    (hstatus : status ≠ .success) (code : ParseErrorCode) (detail : Option String) {r : MapRow}
    (hr : r.parseStatus ≠ .success) :
    parsedVersion (setFailure p status code detail r) = parsedVersion r := by
  simp [parsedVersion, setFailure, hstatus, hr]

variable {p : MapParsePipeline} {row : UnparsedMap} {parse : Parse φ}

/-- Outside a full parse the archive stays, when no failure is written for a parsed map. -/
theorem kept_archive {J : Db φ → Prop} (hshows : ∀ d, J d → archive d = A)
    (hupdate : ∀ d, J d → ∀ p f hf, (∀ r : MapRow, (f r).source = r.source) →
      (∀ r ∈ d.maps.rows, p r → parsedVersion (f r) = parsedVersion r) →
      J { d with maps := d.maps.update p f hf })
    (hrow : row.needsFullParse ∨ parse.accepted = none → A row.id = none) :
    KeptOutsideParse J p row parse where
  failure := by
    intro hcase status hstatus code detail d d' hd hd'
    cases hd'
    refine hupdate d hd _ _ _ (fun _ => rfl) fun r hr hid => ?_
    have hid : r.id = row.id := by simpa using hid
    refine parsedVersion_setFailure p hstatus code detail ((archive_eq_none hr).mp ?_)
    rw [hshows d hd, hid]
    exact hrow hcase
  scenery := by
    intro _ output _ d d' hd hd'
    cases hd'
    exact hupdate d hd _ _ _ (fun _ => rfl) fun r _ _ => parsedVersion_setScenery output.scenery r

/-- A full parse of a map that has a row and is not parsed adds its entry. -/
theorem archived_parse {rows : List (BlockRow φ)} {ws : List (WaypointRow φ)} {output : Output φ}
    {d d' : Db φ} (hd : Archived S A d) (hknown : S.Knows row.id) (hnone : A row.id = none)
    (hrows : ∀ b ∈ rows, b.mapId = row.id)
    (h : runAll (parseResultStatements p row rows ws output) d = .ok d') :
    Archived S (A.record row.id (p.parserVersion, rows)) d' := by
  obtain ⟨_, hmaps, hplacements, _⟩ := runAll_parseResult h
  obtain ⟨r, hr, hid⟩ := sources_knows.mp (hd.sources ▸ hknown)
  have hblocks : ∀ id, d'.blocksOf id =
      if id = row.id then d.blocksOf id ++ rows else d.blocksOf id := by
    intro id
    simp only [Db.blocksOf, hplacements, List.filter_append]
    split
    · next hid =>
      congr 1
      rw [List.filter_eq_self]
      exact fun b hb => by simp [hrows b hb, hid]
    · next hid =>
      have hnil : rows.filter (fun b => decide (b.mapId = id)) = [] := by
        rw [List.filter_eq_nil_iff]
        exact fun b hb => by simp [hrows b hb, Ne.symm hid]
      rw [hnil, List.append_nil]
  have hentry : ∀ id, archive d' id = A.record row.id (p.parserVersion, rows) id := by
    intro id
    by_cases he : id = row.id
    · subst he
      have hfind : d.maps.find row.id = some r := Table.find_eq_some.mpr ⟨hr, hid⟩
      rw [Ledger.record_self]
      simp only [archive, hmaps, Table.find_update, hfind, hblocks]
      simp [hid, setSuccess, setScenery, parsedVersion, hd.unparsed _ hnone]
    · rw [Ledger.record_of_ne _ _ he, ← hd.archive]
      simp only [archive, hmaps, Table.find_update, hblocks, if_neg he]
      cases hfind : d.maps.find id with
      | none => rfl
      | some r' =>
        have hid' : r'.id = id := (Table.find_eq_some.mp hfind).2
        simp [hid', he]
  refine ⟨(runAll_sources h).trans hd.sources, funext hentry, fun id hid => ?_⟩
  by_cases he : id = row.id
  · subst he
    rw [Ledger.record_self] at hid
    simp at hid
  · rw [hblocks, if_neg he]
    rw [Ledger.record_of_ne _ _ he] at hid
    exact hd.unparsed id hid

end Statements

/-! ## Ingestion leaves the archive alone -/

section Elsewhere

variable {S : Sources} {A : Archive φ}

theorem archived_upsert (ingestor : MapIngestor) (summary : TmxMapSummary) {d : Db φ}
    (hd : Archived S A d) :
    Archived (upsertSources ingestor summary S) A (upsertMap ingestor summary d) := by
  have hsources : (upsertMap ingestor summary d).sources = upsertSources ingestor summary S := by
    rw [upsertMap_sources, hd.sources]
  have hblocks : ∀ id, (upsertMap ingestor summary d).blocksOf id = d.blocksOf id := fun id => by
    simp only [Db.blocksOf, upsertMap_placements]
  refine ⟨hsources, ?_, fun id hid => (hblocks id).trans (hd.unparsed id hid)⟩
  rw [← hd.archive]
  rcases upsertMap_eq ingestor summary d with ⟨p, h⟩ | ⟨maps, hins, h⟩ | h
  · rw [h]
    exact archive_update d p (setListing summary) (setListing_id summary) fun r _ _ => rfl
  · funext id
    simp only [archive, hblocks]
    rw [h]
    simp only [Table.find_insert hins]
    split
    · next hid =>
      have hnone : d.maps.find id = none := by
        rw [Table.find_eq_none]
        intro r hr he
        exact Table.key_notMem_of_insert hins (List.mem_map.mpr ⟨r, hr, he.trans hid.symm⟩)
      rw [hnone]
      rfl
    · rfl
  · rw [h]

theorem archived_download (mapId : Nat) (response : Response) {d : Db φ} (hd : Archived S A d) :
    Archived (downloadSources mapId response S) A (fetchAndStoreArtifact mapId response d) := by
  have hsources : (fetchAndStoreArtifact mapId response d).sources =
      downloadSources mapId response S := by
    rw [fetchAndStoreArtifact_sources, hd.sources]
  have hblocks : ∀ id, (fetchAndStoreArtifact mapId response d).blocksOf id = d.blocksOf id :=
    fun id => by simp only [Db.blocksOf, fetchAndStoreArtifact_placements]
  refine ⟨hsources, ?_, fun id hid => (hblocks id).trans (hd.unparsed id hid)⟩
  rw [← hd.archive]
  rcases fetchAndStoreArtifact_eq mapId response d with ⟨digest, path, _, h⟩ | h
  · rw [h]
    exact archive_update d _ (setArtifact digest path) (setArtifact_id digest path) fun r _ _ => rfl
  · rw [h]

end Elsewhere

/-! ## Runs -/

/-- The blocks are the rows of one parse of the map, under the version. -/
def OneParse (id : Nat) (e : Entry φ) : Prop :=
  ∃ (p : MapParsePipeline) (row : UnparsedMap) (output : Output φ),
    row.id = id ∧ p.parserVersion = e.1 ∧ blockRows p row output.blocks = some e.2

/-- A database in which every parsed map has the blocks of one parse under its version, and no
other map has blocks. Scenery may be missing, as migration 011 leaves it. -/
structure Settled (d : Db φ) : Prop where
  parsed : ∀ id version, d.ParsedAs id version → OneParse id (version, d.blocksOf id)
  unparsed : ∀ id, (∀ version, ¬ d.ParsedAs id version) → d.blocksOf id = []

/-- A map that is fetched for its scenery alone is processed with an artifact that is there and a
parse that succeeds. -/
def RetroFillSucceeds (w : World φ) : Input φ → Prop
  | .process parse =>
    ∀ row ∈ w.pending.head?, row.needsFullParse = false → parse.accepted.isSome
  | _ => True

/-- The map for which the step reaches `_write_success`. -/
def fullParseOf (w : World φ) : Input φ → Option Nat
  | .process parse => w.pending.head?.bind fun row => (fullParse row parse).map fun _ => row.id
  | _ => none

/-- What the runs keep of an archive. -/
structure Kept (A : Archive φ) (w : World φ) : Prop where
  genuine : ∀ id e, A id = some e → OneParse id e
  session : ∃ S, Holds (Archived S A) (Shown S A) w.session ∧ ∀ row ∈ w.pending, S.Knows row.id
  nodup : (w.pending.map UnparsedMap.id).Nodup
  awaiting : ∀ row ∈ w.pending, row.needsFullParse ↔ A row.id = none

theorem kept_start {w : World φ} (hw : Started w) (hd : Settled w.session.committed) :
    Kept (archive w.session.committed) w where
  genuine := by
    intro id e he
    obtain ⟨hparsed, hblocks⟩ := archive_eq_some.mp he
    have h := hd.parsed id e.1 hparsed
    rw [hblocks] at h
    exact h
  session := by
    refine ⟨w.session.committed.sources, holds_of_started hw ⟨rfl, rfl, fun id hid => ?_⟩, ?_⟩
    · refine hd.unparsed id fun version hversion => ?_
      rw [archive_eq_some.mpr (show _ ∧ _ = (version, _).2 from ⟨hversion, rfl⟩)] at hid
      simp at hid
    · rw [hw.pending]
      exact fun row hrow => absurd hrow List.not_mem_nil
  nodup := by
    rw [hw.pending]
    exact List.nodup_nil
  awaiting := by
    rw [hw.pending]
    exact fun row hrow => absurd hrow List.not_mem_nil

theorem kept_begin {A : Archive φ} {w : World φ} (hw : Kept A w) (handover : Handover)
    (pipeline : MapParsePipeline) (args : RunArgs) (faults : List (Option (Fault Exc))) :
    Kept A (step w (.begin handover pipeline args faults)) := by
  obtain ⟨S, hS, _⟩ := hw.session
  obtain ⟨hsession, hpending⟩ :=
    step_begin (fun d => shown_of_archived) hS handover pipeline args faults
  rcases hpending with hnil | ⟨d, hd, hrows⟩
  · refine ⟨hw.genuine, ⟨S, hsession, ?_⟩, ?_, ?_⟩ <;> rw [hnil]
    · exact fun row hrow => absurd hrow List.not_mem_nil
    · exact List.nodup_nil
    · exact fun row hrow => absurd hrow List.not_mem_nil
  · refine ⟨hw.genuine, ⟨S, hsession, ?_⟩, ?_, ?_⟩ <;> rw [hrows]
    · intro row hrow
      obtain ⟨r, hr, hto, _⟩ := mem_fetchUnparsed hrow
      rw [(toUnparsed_eq_some hto).1]
      exact hd.known r hr
    · exact fetchUnparsed_nodup args d
    · intro row hrow
      obtain ⟨r, hr, hto, _⟩ := mem_fetchUnparsed hrow
      obtain ⟨hid, _, _, hstatus⟩ := toUnparsed_eq_some hto
      rw [hid, ← hd.archive, archive_eq_none hr, ← hstatus]
      simp [UnparsedMap.needsFullParse]

/-- The archive after a parse, should it be committed: a full parse adds an entry, when its rows can
    be built. -/
theorem exists_archive_of_parse {A : Archive φ} {S : Sources} {row : UnparsedMap}
    (p : MapParsePipeline) (parse : Parse φ) (hgenuine : ∀ id e, A id = some e → OneParse id e)
    (hawaiting : row.needsFullParse ↔ A row.id = none) (hknown : S.Knows row.id) :
    ∃ A', A ≤ A' ∧ (∀ id e, A' id = some e → OneParse id e) ∧ (∀ id, id ≠ row.id → A' id = A id) ∧
      ∀ output rows ws, fullParse row parse = some output →
        blockRows p row output.blocks = some rows → ∀ d d', Archived S A d →
        runAll (parseResultStatements p row rows ws output) d = .ok d' → Archived S A' d' := by
  by_cases hwritten : ∃ output rows, fullParse row parse = some output ∧
      blockRows p row output.blocks = some rows
  · obtain ⟨output, rows, hfull, hrows⟩ := hwritten
    have hnone : A row.id = none := by
      refine hawaiting.mp ?_
      unfold fullParse at hfull
      split at hfull
      · assumption
      · simp at hfull
    refine ⟨A.record row.id (p.parserVersion, rows), Ledger.le_record _ hnone, ?_,
      fun id hid => Ledger.record_of_ne A _ hid, ?_⟩
    · intro id e he
      by_cases hid : id = row.id
      · subst hid
        rw [Ledger.record_self] at he
        rw [← Option.some.inj he]
        exact ⟨p, row, output, rfl, rfl, hrows⟩
      · rw [Ledger.record_of_ne A _ hid] at he
        exact hgenuine id e he
    · intro output' rows' ws hfull' hrows' d d' hd hd'
      rw [hfull, Option.some.injEq] at hfull'
      subst hfull'
      rw [hrows, Option.some.injEq] at hrows'
      subst hrows'
      exact archived_parse hd hknown hnone (fun b hb => (blockRows_writtenFor hrows b hb).mapId) hd'
  · refine ⟨A, le_refl A, hgenuine, fun _ _ => rfl, ?_⟩
    intro output rows ws hfull hrows
    exact absurd ⟨output, rows, hfull, hrows⟩ hwritten

theorem kept_process {A : Archive φ} {w : World φ} {parse : Parse φ} (hw : Kept A w)
    (hcond : RetroFillSucceeds w (.process parse)) :
    ∃ A', A ≤ A' ∧ Kept A' (step w (.process parse)) := by
  cases hpending : w.pending with
  | nil =>
    rw [step_process_nil hpending]
    exact ⟨A, le_refl A, hw⟩
  | cons row rest =>
    obtain ⟨S, hS, hknown⟩ := hw.session
    have hmem : row ∈ w.pending := by rw [hpending]; exact List.mem_cons_self
    have hawaiting := hw.awaiting row hmem
    have hfailing : row.needsFullParse ∨ parse.accepted = none → A row.id = none := by
      rintro (h | h)
      · exact hawaiting.mp h
      · by_contra hparsed
        have hretro : row.needsFullParse = false := by
          rw [← Bool.not_eq_true, hawaiting]
          exact hparsed
        have hsome := hcond row (by rw [hpending]; rfl) hretro
        rw [h] at hsome
        simp at hsome
    have hJ : KeptOutsideParse (Archived S A) w.pipeline row parse :=
      kept_archive (fun d hd => hd.archive)
        (fun d hd p f hf hsource h => archived_update hd p f hf hsource h) hfailing
    have hK : KeptOutsideParse (Shown S A) w.pipeline row parse :=
      kept_archive (fun d hd => hd.archive) (fun d hd p f hf _ h => shown_update hd p f hf h) hfailing
    obtain ⟨A', hle, hgenuine, hrest, hparse⟩ :=
      exists_archive_of_parse w.pipeline parse hw.genuine hawaiting (hknown row hmem)
    obtain ⟨hsession, hleft⟩ := step_process hpending hS hJ hK hparse
    have hsub : ∀ row' ∈ (step w (.process parse)).pending, row' ∈ rest := by
      rcases hleft with h | h <;> rw [h]
      · exact fun _ h => h
      · exact fun _ h => absurd h List.not_mem_nil
    have hnodup := hw.nodup
    rw [hpending, List.map_cons, List.nodup_cons] at hnodup
    have hids : ((step w (.process parse)).pending.map UnparsedMap.id).Nodup := by
      rcases hleft with h | h <;> rw [h]
      · exact hnodup.2
      · exact List.nodup_nil
    have hknown' : ∀ row' ∈ (step w (.process parse)).pending, S.Knows row'.id := fun row' h =>
      hknown row' (by rw [hpending]; exact List.mem_cons_of_mem _ (hsub row' h))
    have hawaiting' : ∀ row' ∈ (step w (.process parse)).pending,
        row'.needsFullParse ↔ A row'.id = none := fun row' h =>
      hw.awaiting row' (by rw [hpending]; exact List.mem_cons_of_mem _ (hsub row' h))
    rcases hsession with hsession | hsession
    · exact ⟨A, le_refl A, hw.genuine, ⟨S, hsession, hknown'⟩, hids, hawaiting'⟩
    · refine ⟨A', hle, hgenuine, ⟨S, hsession.weaken (fun _ h => h) fun _ => shown_of_archived,
        hknown'⟩, hids, fun row' h => ?_⟩
      have hne : row'.id ≠ row.id := fun he =>
        hnodup.1 (he ▸ List.mem_map_of_mem (hsub row' h))
      rw [hrest row'.id hne]
      exact hawaiting' row' h

theorem kept_step {A : Archive φ} {w : World φ} {i : Input φ} (hw : Kept A w)
    (hcond : RetroFillSucceeds w i) : ∃ A', A ≤ A' ∧ Kept A' (step w i) := by
  cases i with
  | begin handover pipeline args faults =>
    exact ⟨A, le_refl A, kept_begin hw handover pipeline args faults⟩
  | process parse => exact kept_process hw hcond
  | upsert ingestor summary =>
    obtain ⟨S, hS, hknown⟩ := hw.session
    refine ⟨A, le_refl A, hw.genuine, ⟨upsertSources ingestor summary S, ?_, fun row hrow =>
      upsertSources_knows (hknown row hrow)⟩, hw.nodup, hw.awaiting⟩
    exact (holds_commitElsewhere hS fun d => archived_upsert ingestor summary).weaken
      (fun _ h => h) fun d hd => ⟨fun r hr => upsertSources_knows (hd.known r hr), hd.archive⟩
  | download mapId response =>
    obtain ⟨S, hS, hknown⟩ := hw.session
    refine ⟨A, le_refl A, hw.genuine, ⟨downloadSources mapId response S, ?_, fun row hrow =>
      downloadSources_knows (hknown row hrow)⟩, hw.nodup, hw.awaiting⟩
    exact (holds_commitElsewhere hS fun d => archived_download mapId response).weaken
      (fun _ h => h) fun d hd => ⟨fun r hr => downloadSources_knows (hd.known r hr), hd.archive⟩

theorem kept_committed {A : Archive φ} {w : World φ} (hw : Kept A w) :
    archive w.session.committed = A := by
  obtain ⟨S, hS, _⟩ := hw.session
  exact hS.committed.archive

/-- After `pre` the map is parsed by `version`. It is so after `post` as well, with the same blocks,
which are those of one parse, and no step of `post` parses it again. -/
structure StaysParsed (w : World φ) (pre post : List (Input φ)) (id : Nat) (version : String) :
    Prop where
  parsed : (after step w (pre ++ post)).session.committed.ParsedAs id version
  blocks : (after step w (pre ++ post)).session.committed.blocksOf id =
    (after step w pre).session.committed.blocksOf id
  oneParse : OneParse id (version, (after step w (pre ++ post)).session.committed.blocksOf id)
  notAgain : ∀ mid i rest, post = mid ++ i :: rest →
    fullParseOf (after step w (pre ++ mid)) i ≠ some id

/-- In a run in which every retro-fill's parse succeeds, a map that is parsed stays so. -/
theorem parsed_once (w : World φ) (hw : Started w) (hd : Settled w.session.committed)
    (pre post : List (Input φ)) (h : Steps RetroFillSucceeds step w (pre ++ post)) (id : Nat)
    (version : String) (hparsed : (after step w pre).session.committed.ParsedAs id version) :
    StaysParsed w pre post id version := by
  obtain ⟨hpre, hpost⟩ := steps_append.mp h
  obtain ⟨A, _, hA⟩ := growing_after (fun _ _ _ => kept_step) (kept_start hw hd) hpre
  have hentry : A id = some (version, (after step w pre).session.committed.blocksOf id) := by
    rw [← kept_committed hA]
    exact archive_eq_some.mpr ⟨hparsed, rfl⟩
  obtain ⟨B, hAB, hB⟩ := growing_after (fun _ _ _ => kept_step) hA hpost
  rw [← after_append] at hB
  have hlast := hAB id _ hentry
  rw [← kept_committed hB] at hlast
  obtain ⟨hparsed', hblocks⟩ := archive_eq_some.mp hlast
  refine ⟨hparsed', hblocks, ?_, ?_⟩
  · rw [hblocks]
    exact hA.genuine id _ hentry
  · rintro mid i rest rfl hfull
    obtain ⟨hmid, _⟩ := steps_append.mp hpost
    obtain ⟨C, hAC, hC⟩ := growing_after (fun _ _ _ => kept_step) hA hmid
    rw [← after_append] at hC
    cases i with
    | process parse =>
      simp only [fullParseOf, Option.bind_eq_some_iff, Option.map_eq_some_iff] at hfull
      obtain ⟨row, hrow, output, hout, rfl⟩ := hfull
      have hneeds : row.needsFullParse := by
        unfold fullParse at hout
        split at hout
        · assumption
        · simp at hout
      have hnone := (hC.awaiting row (List.mem_of_mem_head? hrow)).mp hneeds
      rw [hAC _ _ hentry] at hnone
      simp at hnone
    | _ => simp [fullParseOf] at hfull

/-! ## A map from before migration 011 -/

/-- The wrapper's output for a map of one block. -/
def oneBlock : Output Nat :=
  { title := none, author := none, environment := none, hasItems := none, isBlockMode := none
    scenery := ⟨none, none, none, none, none, none, none, none, none⟩
    blocks := [some ⟨some "RoadStart", none, none, none, .grid (some 1) (some 2) (some 3)⟩]
    waypoints := [] }

/-- A map that version "1" parsed before there were scenery columns. -/
def oldMap : MapRow :=
  { id := 1, sourceSystem := "tmx", sourceMapId := "7", ingestionSnapshot := "s"
    listing := ⟨none, none, none, [], none, none, none, none, none, none, false, true⟩
    scenery := oneBlock.scenery
    decorationParseStatus := .unparsed
    parserVersion := "1", parseStatus := .success, parseErrorCode := none, parseErrorDetail := none
    rawArtifactPath := some "a", rawArtifactHash := some "h", createdByVersion := "1" }

/-- The map as the first parse fetched it. -/
def oldFetch : UnparsedMap := ⟨1, "7", "a", some "h", .unparsed⟩

def oldBlocks : List (BlockRow Nat) := (blockRows ⟨"1", "1"⟩ oldFetch oneBlock.blocks).getD []

def oldDb : Db Nat := ⟨2, ⟨[oldMap], by decide⟩, ⟨oldBlocks, by decide⟩, Table.empty⟩

def oldWorld : World Nat := ⟨Session.start oldDb [], ⟨"1", "1"⟩, []⟩

theorem oldWorld_started : Started oldWorld := ⟨rfl, rfl, rfl⟩

theorem oldDb_settled : Settled oldWorld.session.committed where
  parsed := by
    rintro id version ⟨r, hr, rfl, _, rfl⟩
    rw [List.mem_singleton.mp hr]
    exact ⟨⟨"1", "1"⟩, oldFetch, oneBlock, rfl, rfl, rfl⟩
  unparsed := by
    intro id hid
    have hne : id ≠ 1 := by
      rintro rfl
      exact hid "1" ⟨oldMap, List.mem_singleton_self _, rfl, rfl, rfl⟩
    refine List.filter_eq_nil_iff.mpr fun b hb => ?_
    have hb : b.mapId = 1 := by
      have h : ∀ b ∈ oldBlocks, b.mapId = 1 := by decide
      exact h b hb
    simp [hb, Ne.symm hne]

/-- A run of version "1" that finds no artifact, and one of version "2" that retries and parses. -/
def missingThenRetry : List (Input Nat) :=
  [.begin .reconnect ⟨"1", "1"⟩ ⟨none, none, false, 0, 1⟩ [], .process .missing,
    .begin .reconnect ⟨"2", "1"⟩ ⟨none, none, true, 0, 1⟩ [],
    .process (.returned (.ok oneBlock))]

/-- Between the two runs the map has failed; after them it has two copies of its block. -/
theorem missing_artifact_stores_twice :
    Started oldWorld ∧ Settled oldWorld.session.committed ∧
      oldWorld.session.committed.ParsedAs 1 "1" ∧
      ¬ (after step oldWorld (missingThenRetry.take 2)).session.committed.ParsedAs 1 "1" ∧
      ¬ StaysParsed oldWorld [] missingThenRetry 1 "1" ∧
      ((after step oldWorld missingThenRetry).session.committed.blocksOf 1).map
        BlockRow.parserVersion = ["1", "2"] := by
  have hblocks : ((after step oldWorld missingThenRetry).session.committed.blocksOf 1).map
      BlockRow.parserVersion = ["1", "2"] := by decide
  refine ⟨oldWorld_started, oldDb_settled, by decide, by decide, fun h => ?_, hblocks⟩
  have hsame : ((after step oldWorld missingThenRetry).session.committed.blocksOf 1).map
      BlockRow.parserVersion = ["1"] := by
    rw [show (after step oldWorld missingThenRetry) = after step oldWorld ([] ++ missingThenRetry)
      from rfl, h.blocks]
    decide
  rw [hblocks] at hsame
  exact absurd hsame (by decide)

/-- A run of version "1" fills the scenery in; one of version "2" leaves the map alone. -/
def filledIn : List (Input Nat) :=
  [.begin .reconnect ⟨"1", "1"⟩ ⟨none, none, false, 0, 1⟩ [],
    .process (.returned (.ok oneBlock)), .begin .keep ⟨"2", "1"⟩ ⟨none, none, true, 0, 1⟩ []]

theorem parsed_once_filled_in : StaysParsed oldWorld [] filledIn 1 "1" :=
  parsed_once oldWorld oldWorld_started oldDb_settled [] filledIn
    ⟨trivial, by
      intro row _ _
      decide, trivial, trivial⟩ 1 "1" (by decide)

end TraxMania.Ingestion
