import TraxMania.Constraints.Graph

/-
  The validity label of an edge, once as `derive_validity_label` decides it and once as the `CASE`
  of the merge leaves it. Each observation of a pair adds to the counters of its edge and labels it
  anew (`touchedEdge`); after any number of merges the label is the one that the code derives from
  the counters.
-/

namespace TraxMania.Constraints

open Lib Parsers

/-! ## The policy in the code -/

/-- One round of the loop over the counts. -/
def checkCount (name : String) (value : Int) : Except Exc Unit :=
  if value < 0 then .error ⟨none, name ++ " must be >= 0, got " ++ toString value⟩ else .ok ()

/-- `derive_validity_label`; the observed count is not used. -/
def deriveValidityLabel (benchmarkStrongCount brokenFixtureCount replaySupportedCount
    _observedInMapsCount : Int) : Except Exc ValidityLabel := do
  checkCount "benchmark_strong_count" benchmarkStrongCount
  checkCount "broken_fixture_count" brokenFixtureCount
  checkCount "replay_supported_count" replaySupportedCount
  if benchmarkStrongCount ≥ 1 then
    return .valid
  if brokenFixtureCount > 0 ∧ benchmarkStrongCount = 0 ∧ replaySupportedCount = 0 then
    return .suspicious
  return .unknown

/-! ## The evidence of an edge -/

/-- The counters that decide a label. -/
structure Evidence where
  benchmarkStrong : Nat
  brokenFixture : Nat
  replaySupported : Nat
deriving DecidableEq

namespace Evidence

/-- No evidence yet. -/
def zero : Evidence := ⟨0, 0, 0⟩

/-- The label of the `CASE`. -/
def label (ev : Evidence) : ValidityLabel :=
  if ev.benchmarkStrong ≥ 1 then .valid
  else if ev.brokenFixture > 0 ∧ ev.benchmarkStrong = 0 ∧ ev.replaySupported = 0 then .suspicious
  else .unknown

/-- With the marks of an observation. -/
def add (ev : Evidence) (o : AdjacencyObservation) : Evidence :=
  ⟨ev.benchmarkStrong + if o.isBenchmarkStrong then 1 else 0,
    ev.brokenFixture + if o.isBrokenFixture then 1 else 0, ev.replaySupported⟩

/-- On counters the code decides as the `CASE` does. -/
theorem deriveValidityLabel_eq (ev : Evidence) (observed : Int) :
    deriveValidityLabel ev.benchmarkStrong ev.brokenFixture ev.replaySupported observed =
      .ok ev.label := by
  have hcheck : ∀ (name : String) (n : Nat), checkCount name n = .ok () := fun name n =>
    if_neg (not_lt.mpr (Int.natCast_nonneg n))
  have hstrong : (ev.benchmarkStrong : Int) ≥ 1 ↔ ev.benchmarkStrong ≥ 1 := by omega
  have hbroken : (ev.brokenFixture : Int) > 0 ∧ (ev.benchmarkStrong : Int) = 0 ∧
      (ev.replaySupported : Int) = 0 ↔
      ev.brokenFixture > 0 ∧ ev.benchmarkStrong = 0 ∧ ev.replaySupported = 0 := by omega
  unfold deriveValidityLabel label
  simp only [hcheck, hstrong, hbroken]
  show (if _ then _ else _) = _
  split
  · rfl
  · split
    · rfl
    · rfl

theorem label_eq_valid {ev : Evidence} : ev.label = .valid ↔ 1 ≤ ev.benchmarkStrong := by
  unfold label
  split
  · next h => exact iff_of_true rfl h
  · next h =>
    refine iff_of_false ?_ h
    split
    · exact ValidityLabel.noConfusion
    · exact ValidityLabel.noConfusion

theorem add_strong_le (ev : Evidence) (os : List AdjacencyObservation) :
    ev.benchmarkStrong ≤ (os.foldl add ev).benchmarkStrong := by
  induction os generalizing ev with
  | nil => exact Nat.le_refl _
  | cons o os ih => exact Nat.le_trans (Nat.le_add_right _ _) (ih (ev.add o))

theorem add_comm (ev : Evidence) (o o' : AdjacencyObservation) :
    (ev.add o).add o' = (ev.add o').add o := by
  unfold add
  dsimp only
  rw [Nat.add_right_comm, Nat.add_right_comm ev.brokenFixture]

end Evidence

def Edge.evidence (e : Edge) : Evidence :=
  ⟨e.benchmarkStrongCount, e.brokenFixtureCount, e.replaySupportedCount⟩

/-- The evidence of a pair. -/
def Graph.evidence (g : Graph) (pair : String × String) : Evidence :=
  ((g.edges.find pair).map Edge.evidence).getD .zero

/-- The label on the edge of a pair. -/
def Graph.label (g : Graph) (pair : String × String) : Option ValidityLabel :=
  (g.edges.find pair).map Edge.validityLabel

theorem touchedEdge_evidence (o : AdjacencyObservation) (old : Option Edge) :
    (touchedEdge o old).evidence = ((old.map Edge.evidence).getD .zero).add o := by
  cases old with
  | none =>
    unfold Evidence.add
    rw [Option.map_none, Option.getD_none]
    show (createdEdge o).evidence = ⟨0 + _, 0 + _, 0⟩
    rw [Nat.zero_add, Nat.zero_add]
    rfl
  | some e => rfl

/-- Whatever label an edge had, an observation leaves the one of the `CASE`. -/
theorem touchedEdge_label (o : AdjacencyObservation) (old : Option Edge) :
    (touchedEdge o old).validityLabel = (touchedEdge o old).evidence.label := by
  cases old with
  | none => rfl
  | some e => rfl

/-! ## Merges of maps -/

/-- The merge of a map with the observations it gave. -/
def mergeMap (g : Graph) (observations : List AdjacencyObservation) : Graph :=
  mergeGraph (uniqueBlockKeys observations) observations g

/-- The merges of some maps, one after the other. -/
def mergeMaps (maps : List (List AdjacencyObservation)) (g : Graph) : Graph := maps.foldl mergeMap g

/-- The observations of a pair. -/
def observationsOf (pair : String × String) (observations : List AdjacencyObservation) :
    List AdjacencyObservation := observations.filter fun o => decide (o.pair = pair)

/-- The edge of a pair after observations of it. -/
def touchAll (old : Option Edge) (observations : List AdjacencyObservation) : Option Edge :=
  observations.foldl (fun old o => some (touchedEdge o old)) old

theorem find_mergeEdges {blocks : Table Block.key} {observations : List AdjacencyObservation}
    (hblocks : ∀ o ∈ observations,
      hasBlock blocks o.a.normalizedKey ∧ hasBlock blocks o.b.normalizedKey)
    (edges : Table Edge.pair) (pair : String × String) :
    (observations.foldl (mergeEdge blocks) edges).find pair =
      touchAll (edges.find pair) (observationsOf pair observations) := by
  induction observations generalizing edges with
  | nil => rfl
  | cons o observations ih =>
    obtain ⟨ha, hb⟩ := hblocks o List.mem_cons_self
    rw [List.foldl_cons, ih (fun o' h => hblocks o' (List.mem_cons_of_mem o h)),
      find_mergeEdge ha hb]
    unfold observationsOf
    rw [List.filter_cons]
    by_cases h : o.pair = pair
    · rw [if_pos h, if_pos (decide_eq_true h)]
      rfl
    · rw [if_neg h, if_neg (by simpa using h)]

theorem find_mergeMap (g : Graph) (observations : List AdjacencyObservation)
    (pair : String × String) :
    (mergeMap g observations).edges.find pair =
      touchAll (g.edges.find pair) (observationsOf pair observations) :=
  find_mergeEdges (fun _ ho => ⟨hasBlock_mergeNodes (mem_uniqueBlockKeys ho).1,
    hasBlock_mergeNodes (mem_uniqueBlockKeys ho).2⟩) g.edges pair

theorem find_mergeMaps (maps : List (List AdjacencyObservation)) (g : Graph)
    (pair : String × String) :
    (mergeMaps maps g).edges.find pair =
      touchAll (g.edges.find pair) (observationsOf pair maps.flatten) := by
  unfold mergeMaps
  induction maps generalizing g with
  | nil => rfl
  | cons observations maps ih =>
    rw [List.foldl_cons, ih, find_mergeMap, List.flatten_cons]
    unfold observationsOf touchAll
    rw [List.filter_append, List.foldl_append]

/-! ## Evidence and label after merges -/

theorem evidence_touchAll (observations : List AdjacencyObservation) (old : Option Edge) :
    ((touchAll old observations).map Edge.evidence).getD .zero =
      observations.foldl Evidence.add ((old.map Edge.evidence).getD .zero) := by
  induction observations generalizing old with
  | nil => rfl
  | cons o observations ih =>
    have h := ih (some (touchedEdge o old))
    rw [Option.map_some, Option.getD_some, touchedEdge_evidence] at h
    exact h

/-- An edge that was touched has the label of its evidence. -/
theorem label_touchAll {observations : List AdjacencyObservation} (hne : observations ≠ [])
    (old : Option Edge) :
    ∃ e, touchAll old observations = some e ∧ e.validityLabel = e.evidence.label := by
  induction observations using List.reverseRecOn with
  | nil => exact absurd rfl hne
  | append_singleton observations o _ =>
    refine ⟨touchedEdge o (touchAll old observations), ?_, touchedEdge_label _ _⟩
    unfold touchAll
    rw [List.foldl_append]
    rfl

section Merged

variable {maps : List (List AdjacencyObservation)} {pair : String × String}

/-- Each map adds the marks of its observations. -/
theorem evidence_mergeMaps (maps : List (List AdjacencyObservation)) (g : Graph)
    (pair : String × String) :
    (mergeMaps maps g).evidence pair =
      (observationsOf pair maps.flatten).foldl Evidence.add (g.evidence pair) := by
  unfold Graph.evidence
  rw [find_mergeMaps, evidence_touchAll]

/-- In whatever order the maps come. -/
theorem evidence_mergeMaps_perm {maps' : List (List AdjacencyObservation)} (h : maps.Perm maps')
    {g g' : Graph} (hg : g'.evidence pair = g.evidence pair) :
    (mergeMaps maps' g').evidence pair = (mergeMaps maps g).evidence pair := by
  have hperm : (observationsOf pair maps.flatten).Perm (observationsOf pair maps'.flatten) :=
    h.flatten.filter _
  rw [evidence_mergeMaps, evidence_mergeMaps, hg]
  exact hperm.symm.foldl_eq' (fun o _ o' _ ev => Evidence.add_comm ev o o') _

/-- A pair that a map has observed is labelled by its evidence. -/
theorem label_mergeMaps (h : ∃ observations ∈ maps, ∃ o ∈ observations, o.pair = pair) (g : Graph) :
    ∃ e, (mergeMaps maps g).edges.find pair = some e ∧ e.validityLabel = e.evidence.label := by
  obtain ⟨observations, hobs, o, ho, hpair⟩ := h
  have hmem : o ∈ observationsOf pair maps.flatten :=
    List.mem_filter.mpr ⟨List.mem_flatten.mpr ⟨observations, hobs, ho⟩, decide_eq_true hpair⟩
  rw [find_mergeMaps]
  exact label_touchAll (List.ne_nil_of_mem hmem) _

/-- The label that the merges leave on an edge is the one that the code derives from the counters of
    the edge, whatever the observed count. The order of the maps, the observed count before them and
    the label before them do not matter, and a label that is `valid` stays so. -/
theorem graph_label_is_derived (h : ∃ observations ∈ maps, ∃ o ∈ observations, o.pair = pair)
    (g : Graph) :
    ∃ e, (mergeMaps maps g).edges.find pair = some e ∧
      (∀ observed : Int, deriveValidityLabel e.benchmarkStrongCount e.brokenFixtureCount
        e.replaySupportedCount observed = .ok e.validityLabel) ∧
      (∀ (maps' : List (List AdjacencyObservation)) (g' : Graph), maps.Perm maps' →
        g'.evidence pair = g.evidence pair →
        (mergeMaps maps' g').label pair = some e.validityLabel) ∧
      (e.validityLabel = .valid → ∀ more : List (List AdjacencyObservation),
        (mergeMaps more (mergeMaps maps g)).label pair = some .valid) := by
  obtain ⟨e, he, hlabel⟩ := label_mergeMaps h g
  have hev : (mergeMaps maps g).evidence pair = e.evidence := by
    unfold Graph.evidence
    rw [he]
    rfl
  refine ⟨e, he, fun observed => ?_, fun maps' g' hperm hg => ?_, fun hvalid more => ?_⟩
  · rw [hlabel]
    exact Evidence.deriveValidityLabel_eq e.evidence observed
  · have h' : ∃ observations ∈ maps', ∃ o ∈ observations, o.pair = pair := by
      obtain ⟨observations, hobs, ho⟩ := h
      exact ⟨observations, hperm.subset hobs, ho⟩
    obtain ⟨e', he', hlabel'⟩ := label_mergeMaps h' g'
    have hev' := evidence_mergeMaps_perm hperm hg
    unfold Graph.evidence at hev'
    rw [he', he] at hev'
    unfold Graph.label
    rw [he', Option.map_some, hlabel', hlabel]
    exact congrArg (fun ev => some (Evidence.label ev)) hev'
  · have happend : mergeMaps more (mergeMaps maps g) = mergeMaps (maps ++ more) g :=
      List.foldl_append.symm
    have h' : ∃ observations ∈ maps ++ more, ∃ o ∈ observations, o.pair = pair := by
      obtain ⟨observations, hobs, ho⟩ := h
      exact ⟨observations, List.mem_append_left _ hobs, ho⟩
    obtain ⟨e', he', hlabel'⟩ := label_mergeMaps h' g
    have hstrong : e.evidence.benchmarkStrong ≤ e'.evidence.benchmarkStrong := by
      have hev' := evidence_mergeMaps more (mergeMaps maps g) pair
      rw [hev, happend] at hev'
      unfold Graph.evidence at hev'
      rw [he', Option.map_some, Option.getD_some] at hev'
      rw [hev']
      exact Evidence.add_strong_le e.evidence _
    rw [hlabel, Evidence.label_eq_valid] at hvalid
    unfold Graph.label
    rw [happend, he', Option.map_some, hlabel',
      Evidence.label_eq_valid.mpr (Nat.le_trans hvalid hstrong)]

end Merged

def roadKey (type : String) (hne : type ≠ "") (hsep : '|' ∉ type.toList) : BlockKey :=
  ⟨"Road", type, "", by decide, hne, by decide, hsep, by decide⟩

/-- Two road blocks side by side, in a map with the marks. -/
def roadPair (isBenchmarkStrong isBrokenFixture : Bool) : AdjacencyObservation where
  a := roadKey "Curve" (by decide) (by decide)
  b := roadKey "Straight" (by decide) (by decide)
  snapshotId := "s1"
  isBenchmarkStrong := isBenchmarkStrong
  isBrokenFixture := isBrokenFixture
  ordered := by decide

/-- A broken map and a strong one, from the empty graph. -/
theorem graph_label_is_derived_road :
    ∃ e, (mergeMaps [[roadPair false true], [roadPair true false]] Graph.empty).edges.find
        (roadPair true false).pair = some e ∧
      (∀ observed : Int, deriveValidityLabel e.benchmarkStrongCount e.brokenFixtureCount
        e.replaySupportedCount observed = .ok e.validityLabel) ∧
      (∀ (maps' : List (List AdjacencyObservation)) (g' : Graph),
        [[roadPair false true], [roadPair true false]].Perm maps' →
        g'.evidence (roadPair true false).pair = Graph.empty.evidence (roadPair true false).pair →
        (mergeMaps maps' g').label (roadPair true false).pair = some e.validityLabel) ∧
      (e.validityLabel = .valid → ∀ more : List (List AdjacencyObservation),
        (mergeMaps more (mergeMaps [[roadPair false true], [roadPair true false]]
          Graph.empty)).label (roadPair true false).pair = some .valid) :=
  graph_label_is_derived
    ⟨[roadPair true false], List.mem_cons_of_mem _ List.mem_cons_self, _, List.mem_cons_self, rfl⟩
    Graph.empty

end TraxMania.Constraints
