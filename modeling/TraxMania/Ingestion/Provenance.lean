import TraxMania.Ingestion.ParsedOnce

/-
  Where stored blocks come from. A parse records, with every block, the hash that its fetch read.
  The blocks of a parsed map are those of its artifact as long as no download changes the hash of a
  map that has blocks, and no parse is written for a map whose hash has changed since its fetch.

  `_record_artifact` does neither: it overwrites the hash and leaves `parse_status` alone, so that
  the blocks of the old artifact stay and the new one is not fetched.
-/

namespace TraxMania.Ingestion
open Lib Lib.Txn Lib.Transition Parsers Storage

variable {φ : Type}

/-- The blocks of a parsed map are those of the artifact that its row points to. -/
def Provenance (d : Db φ) : Prop :=
  ∀ r ∈ d.maps.rows, r.parseStatus = .success → ∀ b ∈ d.blocksOf r.id,
    r.rawArtifactHash = some b.sourceArtifactIds.rawArtifactHash

/-- The hash of the map is not `digest`. -/
def Changes (d : Db φ) (mapId : Nat) (digest : String) : Prop :=
  ∃ r ∈ d.maps.rows, r.id = mapId ∧ r.rawArtifactHash ≠ some digest

/-- A run that retries failures will parse the new artifact of the map. -/
def WillParse (d : Db φ) (mapId : Nat) (digest path : String) : Prop :=
  ∃ row ∈ fetchUnparsed RunArgs.everything d, row.id = mapId ∧ row.needsFullParse ∧
    row.rawArtifactHash = some digest ∧ row.rawArtifactPath = path

instance (d : Db φ) : Decidable (Provenance d) :=
  inferInstanceAs (Decidable (∀ r ∈ d.maps.rows, r.parseStatus = .success → ∀ b ∈ d.blocksOf r.id,
    r.rawArtifactHash = some b.sourceArtifactIds.rawArtifactHash))

instance (d : Db φ) (mapId : Nat) (digest : String) : Decidable (Changes d mapId digest) :=
  inferInstanceAs (Decidable (∃ r ∈ d.maps.rows, r.id = mapId ∧ r.rawArtifactHash ≠ some digest))

instance (d : Db φ) (mapId : Nat) (digest path : String) :
    Decidable (WillParse d mapId digest path) :=
  inferInstanceAs (Decidable (∃ row ∈ fetchUnparsed RunArgs.everything d, row.id = mapId ∧
    row.needsFullParse ∧ row.rawArtifactHash = some digest ∧ row.rawArtifactPath = path))

/-- A download changes the artifact only of a map that has no blocks and awaits its parse; a full
parse is written only for a map that has still the hash that was fetched. -/
def SourceKept (w : World φ) : Input φ → Prop
  | .process parse =>
    ∀ row ∈ w.pending.head?, (fullParse row parse).isSome →
      ∀ r ∈ w.session.committed.maps.rows, r.id = row.id → r.rawArtifactHash = row.rawArtifactHash
  | .download mapId (.answered 200 digest _) =>
    ∀ r ∈ w.session.committed.maps.rows, r.id = mapId → r.rawArtifactHash ≠ some digest →
      w.session.committed.blocksOf mapId = [] ∧ awaitsParse true r ∧ r.parseStatus ≠ .success
  | _ => True

/-! ## The invariant -/

/-- The sources and the blocks of a database in which every block carries its map's hash. -/
structure Stored (S : Sources) (P : List (BlockRow φ)) (d : Db φ) : Prop where
  sources : d.sources = S
  placements : d.placements.rows = P
  owned : ∀ b ∈ P, S.Knows b.mapId
  stamped : ∀ b ∈ P, ∀ s ∈ S.rows, s.id = b.mapId →
    s.artifactHash = some b.sourceArtifactIds.rawArtifactHash
  paired : ∀ s ∈ S.rows, s.artifactPath.isSome → s.artifactHash.isSome

/-- An artifact has its hash. -/
def Paired (d : Db φ) : Prop := ∀ r ∈ d.maps.rows, r.rawArtifactPath.isSome → r.rawArtifactHash.isSome

structure Tied (w : World φ) : Prop where
  session : ∃ S P, Holds (Stored S P) Paired w.session
  pending : ∀ row ∈ w.pending, row.rawArtifactHash.isSome

section Databases

variable {S : Sources} {P : List (BlockRow φ)} {d : Db φ}

theorem paired_of_stored (h : Stored S P d) : Paired d := fun r hr hpath =>
  h.paired r.source (h.sources ▸ mem_sources.mpr ⟨r, hr, rfl⟩) hpath

theorem provenance_of_stored (h : Stored S P d) : Provenance d := by
  intro r hr _ b hb
  obtain ⟨hb, hid⟩ := mem_blocksOf.mp hb
  exact h.stamped b (h.placements ▸ hb) r.source (h.sources ▸ mem_sources.mpr ⟨r, hr, rfl⟩) hid.symm

theorem stored_update (h : Stored S P d) (p : MapRow → Bool) (f : MapRow → MapRow)
    (hf : ∀ r, (f r).id = r.id) (hsource : ∀ r, (f r).source = r.source) :
    Stored S P { d with maps := d.maps.update p f hf } :=
  ⟨(sources_update d p f hf hsource).trans h.sources, h.placements, h.owned, h.stamped, h.paired⟩

theorem paired_update (h : Paired d) (p : MapRow → Bool) (f : MapRow → MapRow)
    (hf : ∀ r, (f r).id = r.id) (hsource : ∀ r, (f r).source = r.source) :
    Paired { d with maps := d.maps.update p f hf } := by
  intro r hr
  obtain ⟨r', hr', rfl⟩ := List.mem_map.mp hr
  split
  · have hpath : (f r').rawArtifactPath = r'.rawArtifactPath :=
      congrArg MapSource.artifactPath (hsource r')
    have hhash : (f r').rawArtifactHash = r'.rawArtifactHash :=
      congrArg MapSource.artifactHash (hsource r')
    rw [hpath, hhash]
    exact h r' hr'
  · exact h r' hr'

/-- A parse that is written for a map with the fetched hash stamps its blocks with it. -/
theorem stored_parse {p : MapParsePipeline} {row : UnparsedMap} {rows : List (BlockRow φ)}
    {ws : List (WaypointRow φ)} {output : Output φ} {d' : Db φ} {hash : String}
    (h : Stored S P d) (hrows : ∀ b ∈ rows, WrittenFor p row b)
    (hfetched : row.rawArtifactHash = some hash)
    (hsame : ∀ s ∈ S.rows, s.id = row.id → s.artifactHash = some hash)
    (hrun : runAll (parseResultStatements p row rows ws output) d = .ok d') :
    Stored S (P ++ rows) d' := by
  obtain ⟨_, _, hplacements, hmaps⟩ := runAll_parseResult hrun
  refine ⟨(runAll_sources hrun).trans h.sources, by rw [hplacements, h.placements], ?_, ?_, h.paired⟩
  · intro b hb
    rcases List.mem_append.mp hb with hb | hb
    · exact h.owned b hb
    · rw [← h.sources]
      exact sources_knows.mpr (hmaps b hb)
  · intro b hb s hs hid
    rcases List.mem_append.mp hb with hb | hb
    · exact h.stamped b hb s hs hid
    · have hwritten := hrows b hb
      rw [hsame s hs (hid.trans hwritten.mapId), hwritten.source, hfetched]
      rfl

theorem stored_upsert (ingestor : MapIngestor) (summary : TmxMapSummary) (h : Stored S P d) :
    Stored (upsertSources ingestor summary S) P (upsertMap ingestor summary d) := by
  refine ⟨by rw [upsertMap_sources, h.sources], by rw [upsertMap_placements, h.placements],
    fun b hb => upsertSources_knows (h.owned b hb), ?_, ?_⟩
  · intro b hb s hs hid
    unfold upsertSources at hs
    simp only at hs
    split at hs
    · exact h.stamped b hb s hs hid
    · split at hs
      · exact h.stamped b hb s hs hid
      · next hfresh =>
        rcases List.mem_append.mp hs with hs | hs
        · exact h.stamped b hb s hs hid
        · rw [List.mem_singleton.mp hs] at hid
          obtain ⟨s', hs', hid'⟩ := h.owned b hb
          exact absurd (List.mem_map.mpr ⟨s', hs', hid'.trans hid.symm⟩) hfresh
  · intro s hs
    unfold upsertSources at hs
    simp only at hs
    split at hs
    · exact h.paired s hs
    · split at hs
      · exact h.paired s hs
      · rcases List.mem_append.mp hs with hs | hs
        · exact h.paired s hs
        · rw [List.mem_singleton.mp hs]
          exact fun hpath => hpath

/-- A download keeps the stamps when it changes no hash of a map with blocks. -/
theorem stored_download (mapId : Nat) (response : Response) (h : Stored S P d)
    (hkept : ∀ digest path, response = .answered 200 digest path → ∀ s ∈ S.rows, s.id = mapId →
      s.artifactHash ≠ some digest → ∀ b ∈ P, b.mapId ≠ mapId) :
    Stored (downloadSources mapId response S) P (fetchAndStoreArtifact mapId response d) := by
  have hrows : ∀ s ∈ (downloadSources mapId response S).rows,
      s ∈ S.rows ∨ ∃ digest path, response = .answered 200 digest path ∧ ∃ s' ∈ S.rows,
        s'.id = mapId ∧ s = { s' with artifactPath := some path, artifactHash := some digest } := by
    intro s hs
    cases response with
    | httpError => exact .inl hs
    | answered statusCode digest path =>
      simp only [downloadSources] at hs
      split at hs
      · exact .inl hs
      · next hcode =>
        obtain ⟨s', hs', rfl⟩ := List.mem_map.mp hs
        split
        · next hid =>
          have hcode : statusCode = 200 := by simpa using hcode
          exact .inr ⟨digest, path, by rw [hcode], s', hs', hid, rfl⟩
        · exact .inl hs'
  refine ⟨by rw [fetchAndStoreArtifact_sources, h.sources],
    by rw [fetchAndStoreArtifact_placements, h.placements],
    fun b hb => downloadSources_knows (h.owned b hb), ?_, ?_⟩
  · intro b hb s hs hid
    rcases hrows s hs with hs | ⟨digest, path, hresponse, s', hs', hid', rfl⟩
    · exact h.stamped b hb s hs hid
    · by_cases hchanged : s'.artifactHash = some digest
      · show some digest = _
        rw [← hchanged]
        exact h.stamped b hb s' hs' hid
      · exact absurd (hid.symm.trans hid') (hkept digest path hresponse s' hs' hid' hchanged b hb)
  · intro s hs
    rcases hrows s hs with hs | ⟨digest, path, _, s', hs', _, rfl⟩
    · exact h.paired s hs
    · exact fun _ => rfl

end Databases

/-! ## Runs -/

/-- The rows of a full parse. -/
def rowsOf (p : MapParsePipeline) (row : UnparsedMap) (parse : Parse φ) : List (BlockRow φ) :=
  ((fullParse row parse).bind fun output => blockRows p row output.blocks).getD []

theorem tied_step {w : World φ} {i : Input φ} (hw : Tied w) (hcond : SourceKept w i) :
    Tied (step w i) := by
  obtain ⟨S, P, hS⟩ := hw.session
  cases i with
  | begin handover pipeline args faults =>
    obtain ⟨hsession, hpending⟩ :=
      step_begin (fun _ => paired_of_stored) hS handover pipeline args faults
    refine ⟨⟨S, P, hsession⟩, ?_⟩
    rcases hpending with h | ⟨d, hd, h⟩ <;> rw [h]
    · exact fun row hrow => absurd hrow List.not_mem_nil
    · intro row hrow
      obtain ⟨r, hr, hto, _⟩ := mem_fetchUnparsed hrow
      obtain ⟨_, hpath, hhash, _⟩ := toUnparsed_eq_some hto
      rw [hhash]
      exact hd r hr (by rw [hpath]; rfl)
  | process parse =>
    cases hpending : w.pending with
    | nil => rw [step_process_nil hpending]; exact hw
    | cons row rest =>
      obtain ⟨hash, hfetched⟩ :=
        Option.isSome_iff_exists.mp (hw.pending row (by rw [hpending]; exact List.mem_cons_self))
      have hparse : ∀ output rows ws, fullParse row parse = some output →
          blockRows w.pipeline row output.blocks = some rows → ∀ d d', Stored S P d →
          runAll (parseResultStatements w.pipeline row rows ws output) d = .ok d' →
          Stored S (P ++ rowsOf w.pipeline row parse) d' := by
        intro output rows ws hfull hrows d d' hd hd'
        rw [rowsOf, hfull, Option.bind_some, hrows]
        refine stored_parse hd (blockRows_writtenFor hrows) hfetched (fun s hs hid => ?_) hd'
        obtain ⟨r, hr, rfl⟩ := mem_sources.mp (hS.committed.sources ▸ hs)
        rw [← hfetched]
        exact hcond row (by rw [hpending]; rfl) (by rw [hfull]; rfl) r hr hid
      obtain ⟨hsession, hleft⟩ := step_process hpending hS
        (keptOutsideParse_of_update fun d hd p f hf h => stored_update hd p f hf h)
        (keptOutsideParse_of_update fun d hd p f hf h => paired_update hd p f hf h) hparse
      refine ⟨?_, fun row' hrow' => hw.pending row' ?_⟩
      · rcases hsession with h | h
        · exact ⟨S, P, h⟩
        · exact ⟨S, _, h.weaken (fun _ hd => hd) fun _ => paired_of_stored⟩
      · rw [hpending]
        rcases hleft with h | h <;> rw [h] at hrow'
        · exact List.mem_cons_of_mem _ hrow'
        · exact absurd hrow' List.not_mem_nil
  | upsert ingestor summary =>
    exact ⟨⟨_, P, holds_commitElsewhere hS fun d => stored_upsert ingestor summary⟩, hw.pending⟩
  | download mapId response =>
    refine ⟨⟨_, P, holds_commitElsewhere hS fun d hd => stored_download mapId response hd ?_⟩,
      hw.pending⟩
    rintro digest path rfl s hs hid hchanged b hb hb'
    obtain ⟨r, hr, rfl⟩ := mem_sources.mp (hS.committed.sources ▸ hs)
    obtain ⟨hnone, _⟩ := hcond r hr hid hchanged
    have hmem := mem_blocksOf.mpr ⟨hS.committed.placements.symm ▸ hb, hb'⟩
    rw [hnone] at hmem
    exact absurd hmem List.not_mem_nil

/-- Before the first run every block carries its map's hash, and every artifact has one. -/
structure Sourced (d : Db φ) : Prop where
  owned : ∀ b ∈ d.placements.rows, ∃ r ∈ d.maps.rows, r.id = b.mapId
  stamped : ∀ b ∈ d.placements.rows, ∀ r ∈ d.maps.rows, r.id = b.mapId →
    r.rawArtifactHash = some b.sourceArtifactIds.rawArtifactHash
  paired : Paired d

theorem tied_start {w : World φ} (hw : Started w) (hd : Sourced w.session.committed) : Tied w := by
  refine ⟨⟨_, _, holds_of_started hw ⟨rfl, rfl, ?_, ?_, ?_⟩⟩, ?_⟩
  · exact fun b hb => sources_knows.mpr (hd.owned b hb)
  · intro b hb s hs hid
    obtain ⟨r, hr, rfl⟩ := mem_sources.mp hs
    exact hd.stamped b hb r hr hid
  · intro s hs
    obtain ⟨r, hr, rfl⟩ := mem_sources.mp hs
    exact hd.paired r hr
  · rw [hw.pending]
    exact fun row hrow => absurd hrow List.not_mem_nil

/-- The new artifact of a map that awaits its parse is fetched. -/
theorem willParse_download {w : World φ} {mapId : Nat} {digest path : String}
    (hcond : SourceKept w (.download mapId (.answered 200 digest path)))
    (hchanges : Changes w.session.committed mapId digest) :
    WillParse (step w (.download mapId (.answered 200 digest path))).session.committed mapId digest
      path := by
  obtain ⟨r, hr, hid, hchanged⟩ := hchanges
  obtain ⟨_, hawaits, hstatus⟩ := hcond r hr hid hchanged
  refine ⟨⟨r.id, r.sourceMapId, path, some digest, r.parseStatus⟩, ?_, hid, ?_, rfl, rfl⟩
  · refine mem_fetch_everything (r := setArtifact digest path r) ?_ rfl hawaits
    exact List.mem_map.mpr ⟨r, hr, by simp [hid]⟩
  · simpa [UnparsedMap.needsFullParse] using hstatus

/-- After `pre` the stored blocks are those of the artifacts; when `post` begins with a download
that changes an artifact, the new one will be parsed. -/
structure Traced (w : World φ) (pre post : List (Input φ)) : Prop where
  stored : Provenance (after step w pre).session.committed
  again : ∀ mapId digest path rest, post = .download mapId (.answered 200 digest path) :: rest →
    Changes (after step w pre).session.committed mapId digest →
    WillParse (after step w (pre ++ [.download mapId (.answered 200 digest path)])).session.committed
      mapId digest path

/-- In a run whose steps keep the sources, every state is traced. -/
theorem provenance (w : World φ) (hw : Started w) (hd : Sourced w.session.committed)
    (pre post : List (Input φ)) (h : Steps SourceKept step w (pre ++ post)) :
    Traced w pre post := by
  obtain ⟨hpre, hpost⟩ := steps_append.mp h
  have htied := invariant_after (fun _ _ => tied_step) (tied_start hw hd) hpre
  obtain ⟨S, P, hS⟩ := htied.session
  refine ⟨provenance_of_stored hS.committed, ?_⟩
  rintro mapId digest path rest rfl hchanges
  rw [after_append]
  exact willParse_download hpost.1 hchanges

/-! ## A map that is downloaded again -/

def emptyWorld : World Nat :=
  ⟨Session.start ⟨1, Table.empty, Table.empty, Table.empty⟩ [], ⟨"1", "1"⟩, []⟩

theorem emptyWorld_started : Started emptyWorld := ⟨rfl, rfl, rfl⟩

theorem emptyWorld_sourced : Sourced emptyWorld.session.committed :=
  ⟨by decide, by decide, fun r hr => absurd hr List.not_mem_nil⟩

/-- A map is listed, downloaded and parsed. -/
def firstParse : List (Input Nat) :=
  [.upsert ⟨"s", "1", "1"⟩ ⟨"7", oldMap.listing⟩, .download 1 (.answered 200 "h" "a"),
    .begin .reconnect ⟨"1", "1"⟩ RunArgs.everything [], .process (.returned (.ok oneBlock))]

/-- The map's file changes after its parse: the row takes the new hash, the block keeps the old
one, and no run fetches the map. -/
theorem redownload_keeps_old_blocks :
    Started emptyWorld ∧ Sourced emptyWorld.session.committed ∧
      Changes (after step emptyWorld firstParse).session.committed 1 "h'" ∧
      ¬ Traced emptyWorld firstParse [.download 1 (.answered 200 "h'" "a'")] ∧
      ¬ Provenance (after step emptyWorld
        (firstParse ++ [.download 1 (.answered 200 "h'" "a'")])).session.committed ∧
      ¬ WillParse (after step emptyWorld
        (firstParse ++ [.download 1 (.answered 200 "h'" "a'")])).session.committed 1 "h'" "a'" :=
  ⟨emptyWorld_started, emptyWorld_sourced, by decide,
    fun h => absurd (h.again 1 "h'" "a'" [] rfl (by decide)) (by decide), by decide, by decide⟩

/-- The map's file changes before its parse. -/
theorem provenance_of_early_change :
    Traced emptyWorld (firstParse.take 2) [.download 1 (.answered 200 "h'" "a'")] :=
  provenance emptyWorld emptyWorld_started emptyWorld_sourced _ _
    ⟨trivial, by simp only [SourceKept]; decide, by simp only [SourceKept]; decide, trivial⟩

end TraxMania.Ingestion
