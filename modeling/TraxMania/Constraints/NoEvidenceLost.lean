import TraxMania.Constraints.GraphPipeline
import Mathlib.Data.Finset.Card

/-
  Evidence and failures. In a run in which every claim that takes effect is followed by its
  extraction and its merge, the ledger records only maps whose adjacencies are in the graph, and a
  map whose turn fails is not recorded, so that its next turn works on it again.

  The claim is a transaction of its own, before the extraction: a placement that `BlockKey` rejects,
  a merge that fails, or a process that stops in between leaves the map recorded with nothing
  merged, and every later run skips it.

  Every merge of a map adds one to its edges, and the ledger tells two merges apart by the map's
  row, its snapshot and its parser version. In a run in which no map gives an adjacency a second
  time, and every merge takes effect once, an edge counts the maps in which its adjacency was
  extracted.
-/

namespace TraxMania.Constraints

open Lib Lib.Transition Parsers Storage

section

variable {φ : Type}

/-- The adjacencies have been extracted, and merged when there are any. -/
def Entry.Complete (e : Entry) : Prop :=
  ∃ observations, e.extraction = some observations ∧ (observations = [] ∨ 0 < e.merged)

/-- A claim of the map that takes effect is answered, the process goes on, `BlockKey` accepts the
placements, and the merge is answered. -/
structure Followed (p : ConstraintGraphPipeline) (row : CandidateMap) (placements : List (BlockRow φ))
    (snapshot : String) (t : Trouble) : Prop where
  answered : t.claim.clean
  goesOn : t.stops = false
  accepted : ∀ b ∈ placements, Accepted b
  merged : ∀ observations ∈ (extractAdjacencies placements (marksOf p row snapshot)).toOption,
    observations ≠ [] → t.merge.answered

theorem followed_iff {p : ConstraintGraphPipeline} {row : CandidateMap}
    {placements : List (BlockRow φ)} {snapshot : String} {t : Trouble} :
    Followed p row placements snapshot t ↔ t.claim.clean ∧ t.stops = false ∧
      (∀ b ∈ placements, Accepted b) ∧
      ∀ observations ∈ (extractAdjacencies placements (marksOf p row snapshot)).toOption,
        observations ≠ [] → t.merge.answered :=
  ⟨fun h => ⟨h.answered, h.goesOn, h.accepted, h.merged⟩, fun ⟨h₁, h₂, h₃, h₄⟩ => ⟨h₁, h₂, h₃, h₄⟩⟩

instance (p : ConstraintGraphPipeline) (row : CandidateMap) (placements : List (BlockRow φ))
    (snapshot : String) (t : Trouble) : Decidable (Followed p row placements snapshot t) :=
  decidable_of_iff _ followed_iff.symm

/-- Every claim that takes effect is followed by its extraction and its merge. -/
def Lossless (s : GraphWorld φ × List Entry) : GraphInput φ → Prop
  | .process t =>
    ∀ row ∈ s.1.pending.head?, ∀ read ∈ (readMap s.1.args row t s.1.db).toOption,
      ¬ s.1.graph.Claimed (claimKey row read.2) → 0 < t.claim.times →
      Followed s.1.pipeline row read.1 read.2 t
  | _ => True

instance (s : GraphWorld φ × List Entry) : (i : GraphInput φ) → Decidable (Lossless s i)
  | .process t =>
    inferInstanceAs (Decidable (∀ row ∈ s.1.pending.head?,
      ∀ read ∈ (readMap s.1.args row t s.1.db).toOption,
        ¬ s.1.graph.Claimed (claimKey row read.2) → 0 < t.claim.times →
        Followed s.1.pipeline row read.1 read.2 t))
  | .begin _ _ => .isTrue trivial
  | .maps _ => .isTrue trivial

/-- The map that the step works on. -/
def turnOf (s : GraphWorld φ × List Entry) : GraphInput φ → Option CandidateMap
  | .process _ => s.1.pending.head?
  | _ => none

/-- The map's turn fails. -/
def Fails (s : GraphWorld φ × List Entry) (row : CandidateMap) (t : Trouble) : Prop :=
  turnOf s (.process t) = some row ∧
    (processMap s.1.pipeline s.1.args row t s.1.db s.1.graph).1 = .failed

instance (s : GraphWorld φ × List Entry) (row : CandidateMap) (t : Trouble) :
    Decidable (Fails s row t) := inferInstanceAs (Decidable (_ ∧ _))

/-- After the steps, every recorded map is complete, and the edges count what has been merged; and
a map that was not recorded when its turn failed is not recorded until it has another turn. -/
structure NothingLost (s : GraphWorld φ × List Entry) (ins : List (GraphInput φ)) : Prop where
  complete : ∀ k, (after logStep s ins).1.graph.Claimed k →
    ∃ e ∈ (after logStep s ins).2, e.key = k ∧ e.Complete
  counted : ∀ pair, (after logStep s ins).1.graph.count pair =
    ((after logStep s ins).2.map fun e => e.times pair).sum
  again : ∀ pre t post row snapshot, ins = pre ++ .process t :: post →
    Fails (after logStep s pre) row t →
    ¬ (after logStep s pre).1.graph.Claimed (claimKey row snapshot) →
    Steps (fun s i => ∀ row' ∈ turnOf s i, row'.id ≠ row.id) logStep
      (logStep (after logStep s pre) (.process t)) post →
    ¬ (after logStep s ins).1.graph.Claimed (claimKey row snapshot)

/-! ## One turn -/

theorem contribution_key {p : ConstraintGraphPipeline} {row : CandidateMap}
    {placements : List (BlockRow φ)} {snapshot : String} {t : Trouble} {g : Graph} {e : Entry}
    (h : contribution p row placements snapshot t g = some e) :
    e.key = claimKey row snapshot ∧ ¬ g.Claimed (claimKey row snapshot) ∧ 0 < t.claim.times := by
  unfold contribution at h
  split at h
  · simp at h
  · next hclaim =>
    rw [not_or] at hclaim
    have hpos : 0 < t.claim.times := Nat.pos_of_ne_zero hclaim.2
    refine ⟨?_, hclaim.1, hpos⟩
    split at h
    · rw [← Option.some.inj h]
    · split at h <;> rw [← Option.some.inj h]

/-- A claim that is followed is processed, and its entry is complete. -/
theorem contribute_of_followed {p : ConstraintGraphPipeline} {row : CandidateMap}
    {placements : List (BlockRow φ)} {snapshot : String} {t : Trouble} {g : Graph}
    (h : Followed p row placements snapshot t) (hfresh : ¬ g.Claimed (claimKey row snapshot)) :
    (contribute p row placements snapshot t g).1 = .processed ∧
      ∀ e ∈ contribution p row placements snapshot t g, e.Complete := by
  obtain ⟨processed, -, -, hnew⟩ := execute_claimMap_new hfresh p.stageVersion t.claim
  have hanswer := hnew.mpr h.answered
  obtain ⟨observations, hextract⟩ := extractAdjacencies_of_accepted h.accepted (marksOf p row snapshot)
  have hpos := Delivery.times_pos_of_answered (Delivery.answered_of_clean h.answered)
  have hclaims : ¬ (g.Claimed (claimKey row snapshot) ∨ t.claim.times = 0) := by
    rw [not_or]
    exact ⟨hfresh, by omega⟩
  unfold contribute contribution
  rcases hrun : t.claim.execute (claimMap (claimKey row snapshot) p.stageVersion) g with ⟨answer, g₁⟩
  obtain rfl : answer = some true := by rw [hrun] at hanswer; exact hanswer
  simp only [h.goesOn, h.answered, hextract, if_neg hclaims, Bool.not_true, Bool.or_false,
    Bool.false_eq_true, if_false]
  cases observations with
  | nil => exact ⟨rfl, fun e he => ⟨[], by rw [← Option.some.inj he], .inl rfl⟩⟩
  | cons o observations =>
    have hmerge := h.merged (o :: observations) (by rw [hextract]; rfl) (by simp)
    have hsome := Delivery.execute_isSome (merge (o :: observations)) t.merge g₁
    simp only
    constructor
    · rcases hm : t.merge.execute (merge (o :: observations)) g₁ with ⟨_ | _, g₂⟩
      · rw [hm, hmerge] at hsome
        simp at hsome
      · rfl
    · intro e he
      rw [← Option.some.inj he]
      exact ⟨_, rfl, .inr (Delivery.times_pos_of_answered hmerge)⟩

/-- What a step records. -/
theorem entry_eq_some {w : GraphWorld φ} {i : GraphInput φ} {e : Entry} (h : entry w i = some e) :
    ∃ t row rest placements snapshot, i = .process t ∧ w.pending = row :: rest ∧
      readMap w.args row t w.db = .ok (placements, snapshot) ∧
      contribution w.pipeline row placements snapshot t w.graph = some e := by
  cases i with
  | begin pipeline args => simp [entry] at h
  | maps d => simp [entry] at h
  | process t =>
    simp only [entry] at h
    cases hpending : w.pending with
    | nil => simp [hpending] at h
    | cons row rest =>
      simp only [hpending] at h
      cases hread : readMap w.args row t w.db with
      | error outcome => simp [hread] at h
      | ok read =>
        rw [hread] at h
        exact ⟨t, row, rest, read.1, read.2, rfl, rfl, hread, h⟩

/-- The claim of a step that records a map is followed. -/
theorem followed_of_entry {s : GraphWorld φ × List Entry} {t : Trouble} {row : CandidateMap}
    {rest : List CandidateMap} {placements : List (BlockRow φ)} {snapshot : String} {e : Entry}
    (hcond : Lossless s (.process t)) (hpending : s.1.pending = row :: rest)
    (hread : readMap s.1.args row t s.1.db = .ok (placements, snapshot))
    (he : contribution s.1.pipeline row placements snapshot t s.1.graph = some e) :
    Followed s.1.pipeline row placements snapshot t := by
  obtain ⟨_, hfresh, hpos⟩ := contribution_key he
  exact hcond row (by rw [hpending]; rfl) (placements, snapshot) (by rw [hread]; rfl) hfresh hpos

/-- A turn that fails records nothing. -/
theorem entry_of_fails {s : GraphWorld φ × List Entry} {row : CandidateMap} {t : Trouble}
    (hcond : Lossless s (.process t)) (h : Fails s row t) : entry s.1 (.process t) = none := by
  cases hentry : entry s.1 (.process t) with
  | none => rfl
  | some e =>
    obtain ⟨t', row', rest, placements, snapshot, hi, hpending, hread, he⟩ := entry_eq_some hentry
    cases hi
    have hrow : row' = row := by
      have hhead := h.1
      rw [turnOf, hpending] at hhead
      exact Option.some.inj hhead
    subst hrow
    have hprocessed := (contribute_of_followed (followed_of_entry hcond hpending hread he)
      (contribution_key he).2.1).1
    have hfailed := h.2
    rw [processMap, hread] at hfailed
    simp [hprocessed] at hfailed

/-- A step records no map but that of its turn. -/
theorem not_claimed_step {s : GraphWorld φ × List Entry} {i : GraphInput φ} {k : ClaimKey}
    (hturn : ∀ row ∈ turnOf s i, row.id ≠ k.mapId) (hk : ¬ s.1.graph.Claimed k) :
    ¬ (logStep s i).1.graph.Claimed k := by
  rw [logStep, (graphStep_spec s.1 i).claimed]
  rintro (h | ⟨e, he, rfl⟩)
  · exact hk h
  · obtain ⟨t, row, rest, placements, snapshot, rfl, hpending, _, hcontribution⟩ := entry_eq_some he
    refine hturn row (by rw [turnOf, hpending]; rfl) ?_
    rw [(contribution_key hcontribution).1]
    rfl

/-! ## Runs -/

/-- Every recorded map is complete. -/
def AllComplete (s : GraphWorld φ × List Entry) : Prop := ∀ e ∈ s.2, e.Complete

theorem allComplete_step (s : GraphWorld φ × List Entry) (i : GraphInput φ) (hs : AllComplete s)
    (hcond : Lossless s i) : AllComplete (logStep s i) := by
  intro e he
  rcases List.mem_append.mp he with he | he
  · exact hs e he
  · rw [Option.mem_toList] at he
    obtain ⟨t, row, rest, placements, snapshot, rfl, hpending, hread, hcontribution⟩ :=
      entry_eq_some he
    exact (contribute_of_followed (followed_of_entry hcond hpending hread hcontribution)
      (contribution_key hcontribution).2.1).2 e hcontribution

/-- In a run in which every claim that takes effect is followed, nothing is lost. -/
theorem nothing_lost (s : GraphWorld φ × List Entry) (hs : Accounted s) (hcomplete : AllComplete s)
    (ins : List (GraphInput φ)) (h : Steps Lossless logStep s ins) : NothingLost s ins where
  complete := by
    intro k hk
    have haccounted : Accounted (after logStep s ins) :=
      invariant_after (fun s i hs hcond => accounted_step s i hs) hs h
    obtain ⟨e, he, hkey⟩ := (haccounted.claimed k).mp hk
    exact ⟨e, he, hkey, invariant_after allComplete_step hcomplete h e he⟩
  counted := by
    have haccounted : Accounted (after logStep s ins) :=
      invariant_after (fun s i hs hcond => accounted_step s i hs) hs h
    exact haccounted.count
  again := by
    rintro pre t post row snapshot rfl hfails hk hpost
    obtain ⟨_, hcond⟩ := steps_append.mp h
    rw [after_append, after_cons]
    have hfailed : ¬ (logStep (after logStep s pre) (.process t)).1.graph.Claimed
        (claimKey row snapshot) := by
      rw [logStep, (graphStep_spec _ _).claimed, entry_of_fails hcond.1 hfails]
      rintro (h | ⟨e, he, _⟩)
      · exact hk h
      · simp at he
    exact invariant_after
      (I := fun s : GraphWorld φ × List Entry => ¬ s.1.graph.Claimed (claimKey row snapshot))
      (fun s i hs hturn => not_claimed_step hturn hs) hfailed hpost

/-! ## A block without a name -/

/-- A parsed map. -/
def parsedMap (id : Nat) (parserVersion : String) : MapRow :=
  { id := id, sourceSystem := "tmx", sourceMapId := toString id, ingestionSnapshot := "s"
    listing := ⟨none, none, none, [], none, none, none, none, none, none, false, true⟩
    scenery := ⟨none, none, none, none, none, none, none, none, none⟩
    decorationParseStatus := .success
    parserVersion := parserVersion, parseStatus := .success, parseErrorCode := none
    parseErrorDetail := none, rawArtifactPath := none, rawArtifactHash := none
    createdByVersion := "1" }

/-- A block of the map in the cell `(x, 0, 0)`. -/
def gridBlock (mapId : Nat) (parserVersion blockType : String) (x : Nat) : BlockRow Nat :=
  { mapId := mapId, parserVersion := parserVersion
    blockFamily := extractBlockFamily blockType, blockType := blockType, variant := none
    placementIndex := x, x := some x, y := some 0, z := some 0, rotation := 0, flags := none
    isFree := false, absX := none, absY := none, absZ := none, yaw := none, pitch := none
    roll := none, createdByVersion := "1", sourceArtifactIds := ⟨toString mapId, "h"⟩ }

/-- No run yet, on a map of three blocks in a row, the last of type `blockType`. -/
def threeBlocks (blockType : String) : GraphWorld Nat × List Entry :=
  (⟨⟨2, ⟨[parsedMap 1 "1"], by decide⟩,
      ⟨[gridBlock 1 "1" "RoadStart" 0, gridBlock 1 "1" "RoadCurve" 1, gridBlock 1 "1" blockType 2],
        by simp [BlockRow.slot, gridBlock]⟩, Table.empty⟩,
    Graph.empty, ⟨"1", [], []⟩, ⟨none, none, none⟩, []⟩, [])

def noTrouble : Trouble := ⟨false, .delivered, false, .delivered⟩

/-- Two runs. -/
def twoRuns : List (GraphInput Nat) :=
  [.begin ⟨"1", [], []⟩ ⟨none, none, none⟩, .process noTrouble,
    .begin ⟨"1", [], []⟩ ⟨none, none, none⟩, .process noTrouble]

/-- The first run claims the map and stumbles over the block; the second one skips the map. -/
theorem nameless_block_loses_evidence :
    Fails (after logStep (threeBlocks "") (twoRuns.take 1)) ⟨1, "1"⟩ noTrouble ∧
      (after logStep (threeBlocks "") (twoRuns.take 2)).1.graph.Claimed ⟨1, "s", "1"⟩ ∧
      ¬ NothingLost (threeBlocks "") (twoRuns.take 2) ∧
      (after logStep (threeBlocks "") twoRuns).1.graph.edges = Table.empty ∧
      (processMap ⟨"1", [], []⟩ ⟨none, none, none⟩ ⟨1, "1"⟩ noTrouble (threeBlocks "").1.db
        (after logStep (threeBlocks "") (twoRuns.take 3)).1.graph).1 = .alreadyProcessed := by
  have hfails : Fails (after logStep (threeBlocks "") (twoRuns.take 1)) ⟨1, "1"⟩ noTrouble := by
    decide
  have hclaimed : (after logStep (threeBlocks "") (twoRuns.take 2)).1.graph.Claimed
      ⟨1, "s", "1"⟩ := by decide
  refine ⟨hfails, hclaimed, fun h => ?_, by decide, by decide⟩
  exact h.again (twoRuns.take 1) noTrouble [] ⟨1, "1"⟩ "s" rfl hfails (by decide) trivial hclaimed

/-- The same map when all its blocks have names. -/
theorem nothing_lost_named : NothingLost (threeBlocks "RoadFinish") twoRuns :=
  nothing_lost _ (accounted_new _ rfl rfl) (fun _ h => absurd h List.not_mem_nil) twoRuns (by decide)

end

/-! ## What an edge counts -/

variable {φ κ : Type} [DecidableEq κ] (who : Nat → κ)

/-- The maps in which the adjacency was extracted. -/
def mapsWith (log : List Entry) (pair : String × String) : Finset κ :=
  ((log.filter fun e => pair ∈ e.pairs).map fun e => who e.key.mapId).toFinset

/-- Every edge counts the maps in which its adjacency was extracted. -/
def CountsMaps (s : GraphWorld φ × List Entry) : Prop :=
  ∀ pair, s.1.graph.count pair = (mapsWith who s.2 pair).card

/-- What the step extracts, no earlier extraction from the same map has given, and its merge takes
effect once. -/
def FirstOfMap (s : GraphWorld φ × List Entry) (i : GraphInput φ) : Prop :=
  ∀ e ∈ entry s.1 i, (e.pairs ≠ [] → e.merged = 1) ∧
    ∀ e' ∈ s.2, who e'.key.mapId = who e.key.mapId → ∀ pair ∈ e.pairs, pair ∉ e'.pairs

instance (s : GraphWorld φ × List Entry) (i : GraphInput φ) : Decidable (FirstOfMap who s i) :=
  inferInstanceAs (Decidable (∀ e ∈ entry s.1 i, (e.pairs ≠ [] → e.merged = 1) ∧
    ∀ e' ∈ s.2, who e'.key.mapId = who e.key.mapId → ∀ pair ∈ e.pairs, pair ∉ e'.pairs))

/-- The maps of a log that has one entry more. -/
theorem card_mapsWith_append {log : List Entry} {e : Entry} {pair : String × String}
    (h : pair ∈ e.pairs → ∀ e' ∈ log, who e'.key.mapId = who e.key.mapId → pair ∉ e'.pairs) :
    (mapsWith who (log ++ [e]) pair).card =
      (mapsWith who log pair).card + if pair ∈ e.pairs then 1 else 0 := by
  by_cases hpair : pair ∈ e.pairs
  · have hinsert : mapsWith who (log ++ [e]) pair =
        insert (who e.key.mapId) (mapsWith who log pair) := by
      ext k
      simp only [mapsWith, List.filter_append, List.map_append, List.toFinset_append,
        Finset.mem_union, Finset.mem_insert, List.mem_toFinset]
      simp [hpair, or_comm, eq_comm]
    have hfresh : who e.key.mapId ∉ mapsWith who log pair := by
      intro hmem
      obtain ⟨e', he', hwho⟩ := List.mem_map.mp (List.mem_toFinset.mp hmem)
      obtain ⟨hlog, hin⟩ := List.mem_filter.mp he'
      exact h hpair e' hlog hwho (by simpa using hin)
    rw [hinsert, Finset.card_insert_of_notMem hfresh, if_pos hpair]
  · have hsame : mapsWith who (log ++ [e]) pair = mapsWith who log pair := by
      simp [mapsWith, List.filter_append, hpair]
    rw [hsame, if_neg hpair, Nat.add_zero]

/-- What a step adds to a count. -/
theorem countsMaps_step (s : GraphWorld φ × List Entry) (i : GraphInput φ) (hs : CountsMaps who s)
    (hcond : FirstOfMap who s i) : CountsMaps who (logStep s i) := by
  intro pair
  have hspec := (graphStep_spec s.1 i).count pair
  cases hentry : entry s.1 i with
  | none =>
    rw [hentry] at hspec
    simp only [logStep, hspec, hentry, hs pair, Option.toList_none, List.append_nil]
    rfl
  | some e =>
    obtain ⟨honce, hfirst⟩ := hcond e hentry
    rw [hentry] at hspec
    simp only [logStep, hspec, hentry, hs pair, Option.toList_some]
    rw [card_mapsWith_append who fun hpair e' he' hwho => hfirst e' he' hwho pair hpair]
    simp only [Option.map_some, Option.getD_some, Entry.times]
    split
    · next hpair => rw [honce (List.ne_nil_of_mem hpair)]
    · rfl

/-- In a run in which no map gives an adjacency twice, the edges count maps. -/
theorem counts_maps (s : GraphWorld φ × List Entry) (hs : CountsMaps who s)
    (ins : List (GraphInput φ)) (h : Steps (FirstOfMap who) logStep s ins) :
    CountsMaps who (after logStep s ins) :=
  invariant_after (countsMaps_step who) hs h

/-! ## A map that is parsed again -/

/-- The blocks of the map, as each of two parser versions has stored them. -/
def bothVersions : List (BlockRow Nat) :=
  [gridBlock 1 "1" "RoadStart" 0, gridBlock 1 "1" "RoadFinish" 1, gridBlock 1 "2" "RoadStart" 0,
    gridBlock 1 "2" "RoadFinish" 1]

/-- The map's row has the version. -/
def parsedDb (version : String) : Db Nat :=
  ⟨2, ⟨[parsedMap 1 version], List.nodup_singleton _⟩, ⟨bothVersions, by decide⟩, Table.empty⟩

def parsedWorld : GraphWorld Nat × List Entry :=
  (⟨parsedDb "1", Graph.empty, ⟨"1", [], []⟩, ⟨none, none, none⟩, []⟩, [])

/-- A run, a second parse of the map under version "2", and a run. -/
def parsedAgain : List (GraphInput Nat) :=
  [.begin ⟨"1", [], []⟩ ⟨none, none, none⟩, .process noTrouble, .maps (parsedDb "2"),
    .begin ⟨"1", [], []⟩ ⟨none, none, none⟩, .process noTrouble]

/-- The edge between the two blocks. -/
def startFinish : String × String := ("Road|RoadFinish|", "Road|RoadStart|")

/-- The one map counts twice. -/
theorem parsed_again_counts_twice :
    (after logStep parsedWorld parsedAgain).1.graph.count startFinish = 2 ∧
      (mapsWith id (after logStep parsedWorld parsedAgain).2 startFinish).card = 1 ∧
      ¬ CountsMaps id (after logStep parsedWorld parsedAgain) := by
  have hcount : (after logStep parsedWorld parsedAgain).1.graph.count startFinish = 2 := by decide
  have hmaps : (mapsWith id (after logStep parsedWorld parsedAgain).2 startFinish).card = 1 := by
    decide
  exact ⟨hcount, hmaps, fun h => absurd (h startFinish) (by rw [hcount, hmaps]; decide)⟩

/-- The first run alone. -/
theorem counts_maps_once : CountsMaps id (after logStep parsedWorld (parsedAgain.take 2)) :=
  counts_maps id parsedWorld (fun _ => rfl) _ (by decide)

end TraxMania.Constraints
