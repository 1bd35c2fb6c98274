import TraxMania.Ingestion.ParsedOnce
import TraxMania.Ingestion.Replays

/-
  The columns of a map that come from its file. A parse fills `title`, `environment`, `has_items`
  and `is_block_mode` in where the wrapper read them, and keeps the listing's value where it did
  not. An upsert of the map overwrites all four with the listing's.

  `learn` keeps account of what the parser has established, along a run of `Workflow`; it is no
  part of the program.

  In a run in which every upsert of a parsed map lists what its file says, and every leaderboard
  entry has a finish time where a parse has filled one in, no state has lost anything of what the
  parsers have established. TMX listings meet neither condition: `_normalize_summary` sends
  `has_items` false and `is_block_mode` true for every map, and a leaderboard entry may come without
  a time.
-/

namespace TraxMania.Ingestion

open Lib Lib.Txn Lib.Transition Parsers Storage

variable {φ : Type}

/-! ## What a file says -/

/-- The columns that a parse fills in; `none` where the wrapper did not read a value. -/
structure Facts where
  title : Option String
  environment : Option String
  hasItems : Option Bool
  isBlockMode : Option Bool
  deriving DecidableEq

def Facts.unknown : Facts := ⟨none, none, none, none⟩

def Facts.ofOutput (output : Output φ) : Facts :=
  ⟨output.title, output.environment, output.hasItems, output.isBlockMode⟩

/-- The columns have the values that are known. -/
structure Facts.In (F : Facts) (l : Listing) : Prop where
  title : ∀ title ∈ F.title, l.title = some title
  environment : ∀ environment ∈ F.environment, l.environment = some environment
  hasItems : ∀ hasItems ∈ F.hasItems, l.hasItems = hasItems
  isBlockMode : ∀ isBlockMode ∈ F.isBlockMode, l.isBlockMode = isBlockMode

theorem facts_in_iff {F : Facts} {l : Listing} :
    F.In l ↔ (∀ title ∈ F.title, l.title = some title) ∧
      (∀ environment ∈ F.environment, l.environment = some environment) ∧
      (∀ hasItems ∈ F.hasItems, l.hasItems = hasItems) ∧
      ∀ isBlockMode ∈ F.isBlockMode, l.isBlockMode = isBlockMode :=
  ⟨fun h => ⟨h.title, h.environment, h.hasItems, h.isBlockMode⟩,
    fun ⟨h₁, h₂, h₃, h₄⟩ => ⟨h₁, h₂, h₃, h₄⟩⟩

instance (F : Facts) (l : Listing) : Decidable (F.In l) := decidable_of_iff _ facts_in_iff.symm

theorem unknown_in (l : Listing) : Facts.unknown.In l := by
  constructor <;> exact fun _ h => absurd h (by simp [Facts.unknown])

/-- The listing's columns after a full parse. -/
def parsedListing (output : Output φ) (l : Listing) : Listing :=
  { l with
    title := output.title <|> l.title
    author := output.author <|> l.author
    environment := output.environment <|> l.environment
    hasItems := output.hasItems.getD l.hasItems
    isBlockMode := output.isBlockMode.getD l.isBlockMode }

theorem ofOutput_in (output : Output φ) (l : Listing) :
    (Facts.ofOutput output).In (parsedListing output l) where
  title := by
    intro title h
    have h : output.title = some title := h
    simp [parsedListing, h]
  environment := by
    intro environment h
    have h : output.environment = some environment := h
    simp [parsedListing, h]
  hasItems := by
    intro hasItems h
    have h : output.hasItems = some hasItems := h
    simp [parsedListing, h]
  isBlockMode := by
    intro isBlockMode h
    have h : output.isBlockMode = some isBlockMode := h
    simp [parsedListing, h]

/-! ## The account -/

/-- The map is 'success'. -/
def isParsed (d : Db φ) (id : Nat) : Bool :=
  (d.maps.find id).any fun r => r.parseStatus = .success

/-- The output of the full parse that the step does of the map. -/
def outputFor (w : World φ) (i : Input φ) (id : Nat) : Option (Output φ) :=
  match i, w.pending with
  | .process parse, row :: _ => if row.id = id then fullParse row parse else none
  | _, _ => none

/-- The step leaves the map as a parse with the output does. -/
def Records (w : World φ) (i : Input φ) (id : Nat) (output : Output φ) : Prop :=
  ∃ r ∈ (step w i).session.committed.maps.rows,
    r.id = id ∧ r.parseStatus = .success ∧ (Facts.ofOutput output).In r.listing

instance (w : World φ) (i : Input φ) (id : Nat) (output : Output φ) :
    Decidable (Records w i id output) :=
  inferInstanceAs (Decidable (∃ r ∈ (step w i).session.committed.maps.rows,
    r.id = id ∧ r.parseStatus = .success ∧ (Facts.ofOutput output).In r.listing))

/-- What is known of a map after the step: what its parse says, or what was known of it before as
a parsed map. -/
def learn (w : World φ) (F : Nat → Facts) (i : Input φ) (id : Nat) : Facts :=
  let before := if isParsed w.session.committed id then F id else Facts.unknown
  match outputFor w i id with
  | some output => if Records w i id output then Facts.ofOutput output else before
  | none => before

/-- Every parsed map has the values that its file says. -/
def FactsKept (d : Db φ) (F : Nat → Facts) : Prop :=
  ∀ r ∈ d.maps.rows, r.parseStatus = .success → (F r.id).In r.listing

instance (d : Db φ) (F : Nat → Facts) : Decidable (FactsKept d F) :=
  inferInstanceAs (Decidable (∀ r ∈ d.maps.rows, r.parseStatus = .success → (F r.id).In r.listing))

/-- An upsert of a parsed map lists what its file says. -/
def ListsFacts (w : World φ) (F : Nat → Facts) : Input φ → Prop
  | .upsert ingestor summary =>
    ∀ r ∈ w.session.committed.maps.rows,
      r.naturalKey = (mapSourceSystem, summary.tmxId, ingestor.snapshotId) →
      r.parseStatus = .success → (F r.id).In summary.listing
  | _ => True

instance (w : World φ) (F : Nat → Facts) : (i : Input φ) → Decidable (ListsFacts w F i)
  | .upsert ingestor summary =>
    inferInstanceAs (Decidable (∀ r ∈ w.session.committed.maps.rows,
      r.naturalKey = (mapSourceSystem, summary.tmxId, ingestor.snapshotId) →
      r.parseStatus = .success → (F r.id).In summary.listing))
  | .begin _ _ _ _ => .isTrue trivial
  | .process _ => .isTrue trivial
  | .download _ _ => .isTrue trivial

/-! ## The catalogue -/

/-- The columns of a map row that upserts read and write. -/
structure Listed where
  id : Nat
  naturalKey : String × String × String
  listing : Listing

def listed (r : MapRow) : Listed := ⟨r.id, r.naturalKey, r.listing⟩

structure Catalogue where
  nextId : Nat
  rows : List Listed

def catalogue (d : Db φ) : Catalogue := ⟨d.nextId, d.maps.rows.map listed⟩

theorem mem_catalogue {d : Db φ} {e : Listed} :
    e ∈ (catalogue d).rows ↔ ∃ r ∈ d.maps.rows, listed r = e := by simp [catalogue]

/-- An update that leaves the listings alone leaves the catalogue alone. -/
theorem catalogue_update (d : Db φ) (p : MapRow → Bool) (f : MapRow → MapRow)
    (hf : ∀ r, (f r).id = r.id) (h : ∀ r, listed (f r) = listed r) :
    catalogue { d with maps := d.maps.update p f hf } = catalogue d := by
  unfold catalogue
  dsimp only
  rw [Table.map_update_same _ _ _ _ _ h]

/-- What an update by `f` does to the catalogue, when it does `g` to each listing. -/
theorem catalogue_updateBy (d : Db φ) (p : MapRow → Bool) (f : MapRow → MapRow)
    (hf : ∀ r, (f r).id = r.id) (q : Listed → Bool) (g : Listed → Listed)
    (hq : ∀ r, p r = q (listed r)) (h : ∀ r, listed (f r) = g (listed r)) :
    catalogue { d with maps := d.maps.update p f hf } =
      { catalogue d with rows := (catalogue d).rows.map fun e => if q e then g e else e } := by
  unfold catalogue
  dsimp only
  rw [Table.map_update _ _ _ _ _ q g hq h]

/-- What an upsert does to the catalogue. -/
def upsertCatalogue (ingestor : MapIngestor) (summary : TmxMapSummary) (C : Catalogue) : Catalogue :=
  let key := (mapSourceSystem, summary.tmxId, ingestor.snapshotId)
  if C.rows.any fun e => e.naturalKey = key then
    { C with
      rows := C.rows.map fun e =>
        if e.naturalKey = key then { e with listing := summary.listing } else e }
  else if C.nextId ∈ C.rows.map Listed.id then C
  else ⟨C.nextId + 1, C.rows ++ [⟨C.nextId, key, summary.listing⟩]⟩

theorem upsertMap_catalogue (ingestor : MapIngestor) (summary : TmxMapSummary) (d : Db φ) :
    catalogue (upsertMap ingestor summary d) = upsertCatalogue ingestor summary (catalogue d) := by
  have hany : ((catalogue d).rows.any fun e =>
      e.naturalKey = (mapSourceSystem, summary.tmxId, ingestor.snapshotId)) =
      d.maps.rows.any fun r =>
        r.naturalKey = (mapSourceSystem, summary.tmxId, ingestor.snapshotId) := by
    simp only [catalogue, List.any_map]
    rfl
  have hids : (catalogue d).rows.map Listed.id = d.maps.rows.map MapRow.id := by
    simp only [catalogue, List.map_map]
    rfl
  unfold upsertMap upsertCatalogue
  simp only [hany, hids]
  split
  · have hupdate := catalogue_updateBy d
      (fun r => r.naturalKey = (mapSourceSystem, summary.tmxId, ingestor.snapshotId))
      (setListing summary) (setListing_id summary)
      (fun e => e.naturalKey = (mapSourceSystem, summary.tmxId, ingestor.snapshotId))
      (fun e => { e with listing := summary.listing }) (fun _ => rfl) fun _ => rfl
    rw [hupdate]
    simp only [decide_eq_true_eq]
  · cases hins : d.maps.insert (listedRow ingestor summary d.nextId) with
    | none =>
      have hmem : (catalogue d).nextId ∈ d.maps.rows.map MapRow.id :=
        Table.key_mem_of_insert_eq_none hins
      rw [if_pos hmem]
    | some maps =>
      have hfresh : (catalogue d).nextId ∉ d.maps.rows.map MapRow.id :=
        Table.key_notMem_of_insert hins
      rw [if_neg hfresh]
      simp only [catalogue, Table.rows_of_insert hins, List.map_append]
      rfl

theorem fetchAndStoreArtifact_catalogue (mapId : Nat) (response : Response) (d : Db φ) :
    catalogue (fetchAndStoreArtifact mapId response d) = catalogue d := by
  rcases fetchAndStoreArtifact_eq mapId response d with ⟨digest, path, _, h⟩ | h <;> rw [h]
  exact catalogue_update d _ (setArtifact digest path) (setArtifact_id digest path) fun _ => rfl

/-- What a full parse does to the catalogue. -/
def parseCatalogue (id : Nat) (output : Output φ) (C : Catalogue) : Catalogue :=
  { C with
    rows := C.rows.map fun e =>
      if e.id = id then { e with listing := parsedListing output e.listing } else e }

/-- The map is 'success', with what the file says. -/
def Recorded (id : Nat) (output : Output φ) (d : Db φ) : Prop :=
  ∀ r ∈ d.maps.rows, r.id = id → r.parseStatus = .success ∧ (Facts.ofOutput output).In r.listing

theorem runAll_records {p : MapParsePipeline} {row : UnparsedMap} {rows : List (BlockRow φ)}
    {ws : List (WaypointRow φ)} {output : Output φ} {d d' : Db φ}
    (h : runAll (parseResultStatements p row rows ws output) d = .ok d') :
    catalogue d' = parseCatalogue row.id output (catalogue d) ∧ Recorded row.id output d' := by
  obtain ⟨hnext, hmaps, _⟩ := runAll_parseResult h
  constructor
  · have hupdate := catalogue_updateBy d (fun r => r.id = row.id) (setSuccess p output)
      (setSuccess_id p output) (fun e => e.id = row.id)
      (fun e => { e with listing := parsedListing output e.listing }) (fun _ => rfl) fun _ => rfl
    have hafter : catalogue d' = catalogue { d with
        maps := d.maps.update (fun r => r.id = row.id) (setSuccess p output)
          (setSuccess_id p output) } := by
      unfold catalogue
      rw [hnext, hmaps]
    rw [hafter, hupdate]
    simp only [decide_eq_true_eq, parseCatalogue]
  · intro r hr hid
    rw [hmaps] at hr
    obtain ⟨r', hr', rfl⟩ := List.mem_map.mp hr
    simp only [decide_eq_true_eq] at hid ⊢
    split at hid
    · next h =>
      rw [if_pos h]
      exact ⟨rfl, ofOutput_in output r'.listing⟩
    · next hne => exact absurd hid hne

/-! ## One step -/

/-- What is committed and what the open transaction has made of it have one catalogue. -/
def OneCatalogue (w : World φ) : Prop :=
  ∃ C, Holds (fun d => catalogue d = C) (fun _ => True) w.session

theorem oneCatalogue_start {w : World φ} (hw : Started w) : OneCatalogue w :=
  ⟨_, holds_of_started hw rfl⟩

/-- A map is known after the step when its listing has what was known of it before as a parsed
map. -/
theorem learn_in {w : World φ} {F : Nat → Facts} {i : Input φ} {r r' : MapRow}
    (hr : r ∈ w.session.committed.maps.rows)
    (hr' : r' ∈ (step w i).session.committed.maps.rows) (hid : r.id = r'.id)
    (hlisting : r.parseStatus = .success → (F r.id).In r'.listing) :
    (learn w F i r'.id).In r'.listing := by
  have hbefore : (if isParsed w.session.committed r'.id then F r'.id else Facts.unknown).In
      r'.listing := by
    split
    · next h =>
      have hfind : w.session.committed.maps.find r'.id = some r := Table.find_eq_some.mpr ⟨hr, hid⟩
      rw [isParsed, hfind] at h
      rw [← hid]
      exact hlisting (by simpa using h)
    · exact unknown_in _
  unfold learn
  simp only
  cases outputFor w i r'.id with
  | none => exact hbefore
  | some output =>
    simp only
    split
    · next h =>
      obtain ⟨r₁, hr₁, hid₁, _, hin⟩ := h
      rw [← (step w i).session.committed.maps.eq_of_key_eq hr₁ hr' hid₁]
      exact hin
    · exact hbefore

theorem factsKept_of_catalogue {w : World φ} {F : Nat → Facts} {i : Input φ}
    (hF : FactsKept w.session.committed F)
    (h : catalogue (step w i).session.committed = catalogue w.session.committed) :
    FactsKept (step w i).session.committed (learn w F i) := by
  intro r' hr' _
  obtain ⟨r, hr, he⟩ := mem_catalogue.mp (h ▸ mem_catalogue.mpr ⟨r', hr', rfl⟩)
  have hlisting : r.listing = r'.listing := congrArg Listed.listing he
  exact learn_in hr hr' (congrArg Listed.id he) fun hstatus => hlisting ▸ hF r hr hstatus

/-- A turn of the loop leaves the catalogue alone, or fills in what the file of its map says. -/
theorem step_process_catalogue {w : World φ} {C : Catalogue} {row : UnparsedMap}
    {rest : List UnparsedMap} (parse : Parse φ) (hpending : w.pending = row :: rest)
    (hC : Holds (fun d => catalogue d = C) (fun _ => True) w.session) :
    Holds (fun d => catalogue d = C) (fun _ => True) (step w (.process parse)).session ∨
      ∃ output, fullParse row parse = some output ∧
        Holds (fun d => catalogue d = parseCatalogue row.id output C ∧ Recorded row.id output d)
          (fun _ => True) (step w (.process parse)).session := by
  have hJ : KeptOutsideParse (fun d : Db φ => catalogue d = C) w.pipeline row parse := by
    refine ⟨?_, ?_⟩
    · intro _ status _ code detail d d' hd hd'
      cases hd'
      exact (catalogue_update d _ _ (setFailure_id _ status code detail) fun _ => rfl).trans hd
    · intro _ output _ d d' hd hd'
      cases hd'
      exact (catalogue_update d _ _ (setScenery_id output.scenery) fun _ => rfl).trans hd
  have hK : KeptOutsideParse (fun _ : Db φ => True) w.pipeline row parse :=
    keptOutsideParse_of_update fun _ _ _ _ _ _ => trivial
  cases hfull : fullParse row parse with
  | none =>
    have hspec : Either (fun d => catalogue d = C) (fun _ => False) (fun _ => True)
        (step w (.process parse)).session :=
      (step_process hpending hC hJ hK fun output _ _ h => by
        rw [hfull] at h
        simp at h).1
    exact .inl (hspec.resolve_right fun h => h.committed)
  | some output =>
    have hspec : Either (fun d => catalogue d = C)
        (fun d => catalogue d = parseCatalogue row.id output C ∧ Recorded row.id output d)
        (fun _ => True) (step w (.process parse)).session :=
      (step_process hpending hC hJ hK fun output' _ _ h _ d d' hd hd' => by
        cases Option.some.inj (hfull.symm.trans h)
        exact hd ▸ runAll_records hd').1
    rcases hspec with h | h
    · exact .inl h
    · exact .inr ⟨output, rfl, h.weaken (fun _ hd => hd) fun _ _ => trivial⟩

/-- A map is known by its file after the parse that fills it in. -/
theorem learn_of_recorded {w : World φ} {F : Nat → Facts} {row : UnparsedMap}
    {rest : List UnparsedMap} {parse : Parse φ} {output : Output φ}
    (hpending : w.pending = row :: rest) (hfull : fullParse row parse = some output) {r : MapRow}
    (hr : r ∈ (step w (.process parse)).session.committed.maps.rows) (hid : r.id = row.id)
    (hrecorded : Recorded row.id output (step w (.process parse)).session.committed) :
    learn w F (.process parse) row.id = Facts.ofOutput output := by
  have houtput : outputFor w (.process parse) row.id = some output := by
    simpa only [outputFor, hpending, if_true] using hfull
  have hrecords : Records w (.process parse) row.id output := ⟨r, hr, hid, hrecorded r hr hid⟩
  simp only [learn, houtput]
  exact if_pos hrecords

theorem factsKept_process {w : World φ} {F : Nat → Facts} {parse : Parse φ} (hC : OneCatalogue w)
    (hF : FactsKept w.session.committed F) :
    OneCatalogue (step w (.process parse)) ∧
      FactsKept (step w (.process parse)).session.committed (learn w F (.process parse)) := by
  obtain ⟨C, hC⟩ := hC
  have hbefore : catalogue w.session.committed = C := hC.committed
  cases hpending : w.pending with
  | nil =>
    have hstep : step w (.process parse) = w := step_process_nil hpending
    refine ⟨⟨C, by rw [hstep]; exact hC⟩, factsKept_of_catalogue hF (by rw [hstep])⟩
  | cons row rest =>
    rcases step_process_catalogue parse hpending hC with h | ⟨output, hfull, h⟩
    · exact ⟨⟨C, h⟩, factsKept_of_catalogue hF (h.committed.trans hbefore.symm)⟩
    · refine ⟨⟨_, h.weaken (fun _ hd => hd.1) fun _ hd => hd⟩, fun r' hr' hstatus => ?_⟩
      obtain ⟨hcatalogue, hrecorded⟩ := h.committed
      by_cases hid : r'.id = row.id
      · rw [hid, learn_of_recorded hpending hfull hr' hid hrecorded]
        exact (hrecorded r' hr' hid).2
      · have hmem := hcatalogue ▸ mem_catalogue.mpr ⟨r', hr', rfl⟩
        obtain ⟨e, he, heq⟩ := List.mem_map.mp hmem
        have hne : e.id ≠ row.id := by
          intro h
          rw [if_pos h] at heq
          exact hid ((congrArg Listed.id heq).symm.trans h)
        rw [if_neg hne] at heq
        obtain ⟨r, hr, rfl⟩ := mem_catalogue.mp (hbefore.symm ▸ he)
        have hlisting : r.listing = r'.listing := congrArg Listed.listing heq
        exact learn_in hr hr' (congrArg Listed.id heq) fun hstatus => hlisting ▸ hF r hr hstatus

theorem factsKept_upsert {w : World φ} {F : Nat → Facts} {ingestor : MapIngestor}
    {summary : TmxMapSummary} (hF : FactsKept w.session.committed F)
    (hcond : ListsFacts w F (.upsert ingestor summary)) :
    FactsKept (step w (.upsert ingestor summary)).session.committed
      (learn w F (.upsert ingestor summary)) := by
  intro r' hr' hstatus
  have hrow : r' ∈ (upsertMap ingestor summary w.session.committed).maps.rows := hr'
  unfold upsertMap at hrow
  simp only at hrow
  split at hrow
  · obtain ⟨r, hr, rfl⟩ := List.mem_map.mp hrow
    refine learn_in hr hr' (by split <;> rfl) fun hparsed => ?_
    split
    · next hkey => exact hcond r hr (by simpa using hkey) hparsed
    · exact hF r hr hparsed
  · split at hrow
    · next maps hins =>
      rw [show ({ w.session.committed with maps := maps, nextId := _ } : Db φ).maps.rows = maps.rows
        from rfl, Table.rows_of_insert hins] at hrow
      rcases List.mem_append.mp hrow with hr | hnew
      · exact learn_in hr hr' rfl fun hparsed => hF r' hr hparsed
      · rw [List.mem_singleton.mp hnew] at hstatus
        exact absurd hstatus (by simp [listedRow])
    · exact learn_in hrow hr' rfl fun hparsed => hF r' hrow hparsed

theorem factsKept_step {w : World φ} {F : Nat → Facts} {i : Input φ} (hC : OneCatalogue w)
    (hF : FactsKept w.session.committed F) (hcond : ListsFacts w F i) :
    OneCatalogue (step w i) ∧ FactsKept (step w i).session.committed (learn w F i) := by
  cases i with
  | begin handover pipeline args faults =>
    obtain ⟨C, hC⟩ := hC
    have h := (step_begin (fun _ _ => trivial) hC handover pipeline args faults).1
    exact ⟨⟨C, h⟩, factsKept_of_catalogue hF (h.committed.trans hC.committed.symm)⟩
  | process parse => exact factsKept_process hC hF
  | upsert ingestor summary =>
    obtain ⟨C, hC⟩ := hC
    refine ⟨⟨upsertCatalogue ingestor summary C, holds_commitElsewhere hC fun d hd => ?_⟩,
      factsKept_upsert hF hcond⟩
    rw [upsertMap_catalogue, hd]
  | download mapId response =>
    obtain ⟨C, hC⟩ := hC
    refine ⟨⟨C, holds_commitElsewhere hC fun d hd => ?_⟩,
      factsKept_of_catalogue hF (fetchAndStoreArtifact_catalogue mapId response _)⟩
    rw [fetchAndStoreArtifact_catalogue, hd]

/-! ## Maps and replays -/

/-- The tables of maps and of replays, with their runs. -/
structure Site (φ : Type) where
  maps : World φ
  replays : ReplayWorld

inductive SiteInput (φ : Type)
  | map (i : Input φ)
  | replay (i : ReplayInput)

/-- The maps that have a row. -/
def Site.known (s : Site φ) (mapId : Nat) : Bool := (s.maps.session.committed.maps.find mapId).isSome

/-- What the parsers have established. -/
structure Account where
  facts : Nat → Facts
  timed : Nat → Bool

/-- One step, with its account. -/
def account (s : Site φ × Account) : SiteInput φ → Site φ × Account
  | .map i =>
    ({ s.1 with maps := step s.1.maps i }, { s.2 with facts := learn s.1.maps s.2.facts i })
  | .replay i =>
    ({ s.1 with replays := replayStep s.1.known s.1.replays i },
      { s.2 with timed := learnTimed s.1.known s.1.replays s.2.timed i })

/-- The values that the parsers have established are there. -/
def Undegraded (s : Site φ × Account) : Prop :=
  FactsKept s.1.maps.session.committed s.2.facts ∧
    TimesKept s.1.replays.session.committed s.2.timed

instance (s : Site φ × Account) : Decidable (Undegraded s) :=
  inferInstanceAs (Decidable (_ ∧ _))

/-- A step of ingestion brings what the parsers have established. -/
def BringsValues (s : Site φ × Account) : SiteInput φ → Prop
  | .map i => ListsFacts s.1.maps s.2.facts i
  | .replay i => RanksTimed s.1.replays s.2.timed i

instance (s : Site φ × Account) : (i : SiteInput φ) → Decidable (BringsValues s i)
  | .map i => inferInstanceAs (Decidable (ListsFacts s.1.maps s.2.facts i))
  | .replay i => inferInstanceAs (Decidable (RanksTimed s.1.replays s.2.timed i))

/-- What the runs keep. -/
structure Sound (s : Site φ × Account) : Prop where
  catalogue : OneCatalogue s.1.maps
  timing : OneTiming s.1.replays
  undegraded : Undegraded s

theorem sound_step (s : Site φ × Account) (i : SiteInput φ) (hs : Sound s)
    (hcond : BringsValues s i) : Sound (account s i) := by
  obtain ⟨hfacts, htimes⟩ := hs.undegraded
  cases i with
  | map i =>
    have h := factsKept_step hs.catalogue hfacts hcond
    exact ⟨h.1, hs.timing, h.2, htimes⟩
  | replay i =>
    have h : OneTiming (replayStep s.1.known s.1.replays i) ∧ _ :=
      timesKept_step hs.timing htimes hcond
    exact ⟨hs.catalogue, h.1, hfacts, h.2⟩

/-- In a run whose upserts bring what the parsers have established, nothing of it is ever lost. -/
theorem never_degraded (s : Site φ × Account) (hmaps : Started s.1.maps)
    (hreplays : ReplaysStarted s.1.replays) (hs : Undegraded s) (ins : List (SiteInput φ))
    (h : Steps BringsValues account s ins) : Undegraded (after account s ins) := by
  have hstart : Sound s := ⟨oneCatalogue_start hmaps, oneTiming_start hreplays, hs⟩
  exact (invariant_after sound_step hstart h).undegraded

/-! ## A map and a replay that are listed again -/

/-- Before anything is listed. -/
def emptySite : Site Nat × Account :=
  (⟨⟨Session.start ⟨1, Table.empty, Table.empty, Table.empty⟩ [], ⟨"1", "1"⟩, []⟩,
    ⟨Session.start ⟨1, Table.empty⟩ [], []⟩⟩, ⟨fun _ => .unknown, fun _ => false⟩)

/-- What the wrapper reads in a map with items. -/
def itemMap : Output Nat := { oneBlock with hasItems := some true }

/-- A map is listed, downloaded and parsed; so is a replay of it, whose entry has no time. -/
def parsedSite : List (SiteInput Nat) :=
  [.map (.upsert ⟨"s", "1", "1"⟩ ⟨"7", oldMap.listing⟩), .map (.download 1 (.answered 200 "h" "a")),
    .map (.begin .reconnect ⟨"1", "1"⟩ RunArgs.everything []),
    .map (.process (.returned (.ok itemMap))),
    .replay (.upsert ⟨"s", "1"⟩ ⟨"9", none, none, ⟨none, none, none, none, none, none, none⟩⟩ 1),
    .replay (.download 1 (.answered 200 "h" "a")), .replay (.begin .reconnect ⟨none, none, false⟩ []),
    .replay (.process (.parsed ⟨some 30000, none⟩ none))]

/-- The map's listing, as TMX sends it again. -/
def mapAgain : SiteInput Nat := .map (.upsert ⟨"s", "1", "1"⟩ ⟨"7", oldMap.listing⟩)

/-- The replay's leaderboard entry, as TMX sends it again. -/
def replayAgain : SiteInput Nat :=
  .replay (.upsert ⟨"s", "1"⟩ ⟨"9", none, none, ⟨none, none, none, none, none, none, none⟩⟩ 1)

/-- The map's row loses its items, and the replay's row its finish time. -/
theorem listed_again_degrades :
    Started emptySite.1.maps ∧ ReplaysStarted emptySite.1.replays ∧
      Undegraded (after account emptySite parsedSite) ∧
      (after account emptySite parsedSite).2.facts 1 = Facts.ofOutput itemMap ∧
      (after account emptySite parsedSite).2.timed 1 = true ∧
      ¬ FactsKept (after account emptySite (parsedSite ++ [mapAgain])).1.maps.session.committed
        (after account emptySite (parsedSite ++ [mapAgain])).2.facts ∧
      ¬ TimesKept (after account emptySite (parsedSite ++ [replayAgain])).1.replays.session.committed
        (after account emptySite (parsedSite ++ [replayAgain])).2.timed :=
  ⟨⟨rfl, rfl, rfl⟩, ⟨rfl, rfl, rfl⟩, by decide, by decide, by decide, by decide, by decide⟩

/-- The same map and replay, when TMX knows the items and the time by then. -/
theorem never_degraded_brought :
    Undegraded (after account emptySite (parsedSite ++
      [.map (.upsert ⟨"s", "1", "1"⟩ ⟨"7", { oldMap.listing with hasItems := true }⟩),
        .replay (.upsert ⟨"s", "1"⟩
          ⟨"9", none, some 30000, ⟨none, none, none, none, none, none, none⟩⟩ 1)])) :=
  never_degraded emptySite ⟨rfl, rfl, rfl⟩ ⟨rfl, rfl, rfl⟩ (by decide) _ (by decide)

end TraxMania.Ingestion
