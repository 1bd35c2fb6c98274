import TraxMania.Constraints.Graph
import TraxMania.Lib.Delivery
import Mathlib.Algebra.GroupWithZero.Nat

/-
  The pipeline that builds the constraint graph (`ConstraintGraphPipeline` of
  `src/constraints/pipeline.py`), one step for every map that a run works on: what it reads of the
  map, the claim, the extraction, and the merge, with whatever goes wrong in between.

  `entry` says what a turn has contributed to the graph; the log of these entries is no part of the
  program.
-/

namespace TraxMania.Constraints
open Lib Parsers Storage

variable {φ : Type}

/-! ## A run -/

/-- The pipeline object. -/
structure ConstraintGraphPipeline where
  stageVersion : String
  benchmarkStrongMapIds : List Nat
  brokenFixtureMapIds : List Nat
  deriving DecidableEq

/-- The arguments of `run`. -/
structure GraphRunArgs where
  snapshotId : Option String
  mapIds : Option (List Nat)
  parserVersion : Option String
  deriving DecidableEq

/-- A row of the candidates. -/
structure CandidateMap where
  id : Nat
  parserVersion : String
  deriving DecidableEq

/-- `_fetch_candidate_maps`. -/
def fetchCandidateMaps (args : GraphRunArgs) (d : Db φ) : List CandidateMap :=
  let rows := d.maps.rows.filter fun r =>
    r.parseStatus = .success &&
      (args.snapshotId.all fun snapshot => r.ingestionSnapshot = snapshot) &&
      (args.parserVersion.all fun version => r.parserVersion = version) &&
      (args.mapIds.all fun ids => ids.contains r.id)
  (SortBy.sortBy MapRow.id rows).map fun r => ⟨r.id, r.parserVersion⟩

/-- `_fetch_placements`: the grid blocks of the map; `int()` refuses a missing coordinate. -/
def fetchPlacements (row : CandidateMap) (d : Db φ) : Except Exc (List (BlockRow φ)) :=
  let rows := SortBy.sortBy BlockRow.placementIndex (d.placements.rows.filter fun b =>
    b.mapId = row.id && b.parserVersion = row.parserVersion && !b.isFree)
  if rows.all fun b => b.x.isSome && b.y.isSome && b.z.isSome then .ok rows
  else .error ⟨none, "int() argument must be a string or a real number, not 'NoneType'"⟩

/-- What becomes of a map. -/
inductive Outcome
  | noPlacements
  | disappeared
  | alreadyProcessed
  | processed
  | failed
  deriving DecidableEq

/-- What goes wrong with a map: its reads, the claim, the process before the merge, the merge. -/
structure Trouble where
  reads : Bool
  claim : Delivery
  stops : Bool
  merge : Delivery
  deriving DecidableEq

/-- What `_process_one` reads of the map: its placements and its snapshot. -/
def readMap (args : GraphRunArgs) (row : CandidateMap) (t : Trouble) (d : Db φ) :
    Except Outcome (List (BlockRow φ) × String) :=
  if t.reads then .error .failed
  else
    match fetchPlacements row d with
    | .error _ => .error .failed
    | .ok [] => .error .noPlacements
    | .ok (p :: placements) =>
      match args.snapshotId with
      | some snapshot => .ok (p :: placements, snapshot)
      | none =>
        match d.maps.find row.id with
        | none => .error .disappeared
        | some r => .ok (p :: placements, r.ingestionSnapshot)

def claimKey (row : CandidateMap) (snapshot : String) : ClaimKey :=
  ⟨row.id, snapshot, row.parserVersion⟩

def marksOf (p : ConstraintGraphPipeline) (row : CandidateMap) (snapshot : String) : Marks :=
  ⟨snapshot, p.benchmarkStrongMapIds.contains row.id, p.brokenFixtureMapIds.contains row.id⟩

/-- `_merge_graph`, as a transaction. -/
def merge (observations : List AdjacencyObservation) (g : Graph) : Unit × Graph :=
  ((), mergeGraph (uniqueBlockKeys observations) observations g)

/-- The rest of `_process_one`: the claim, the extraction, and the merge. -/
def contribute (p : ConstraintGraphPipeline) (row : CandidateMap) (placements : List (BlockRow φ))
    (snapshot : String) (t : Trouble) (g : Graph) : Outcome × Graph :=
  match t.claim.execute (claimMap (claimKey row snapshot) p.stageVersion) g with
  | (none, g₁) => (.failed, g₁)
  | (some false, g₁) => (.alreadyProcessed, g₁)
  | (some true, g₁) =>
    if t.stops then (.failed, g₁)
    else
      match extractAdjacencies placements (marksOf p row snapshot) with
      | .error _ => (.failed, g₁)
      | .ok [] => (.processed, g₁)
      | .ok (o :: observations) =>
        match t.merge.execute (merge (o :: observations)) g₁ with
        | (none, g₂) => (.failed, g₂)
        | (some _, g₂) => (.processed, g₂)

/-- `_process_one`, with the `except` of `run`. -/
def processMap (p : ConstraintGraphPipeline) (args : GraphRunArgs) (row : CandidateMap) (t : Trouble)
    (d : Db φ) (g : Graph) : Outcome × Graph :=
  match readMap args row t d with
  | .error outcome => (outcome, g)
  | .ok (placements, snapshot) => contribute p row placements snapshot t g

/-! ## Steps -/

/-- The two databases, and what is left of the current run. -/
structure GraphWorld (φ : Type) where
  db : Db φ
  graph : Graph
  pipeline : ConstraintGraphPipeline
  args : GraphRunArgs
  pending : List CandidateMap

inductive GraphInput (φ : Type)
  /-- A call of `run`; the run before it may have been killed. -/
  | begin (pipeline : ConstraintGraphPipeline) (args : GraphRunArgs)
  /-- The next map of the run. -/
  | process (t : Trouble)
  /-- The maps change: others are ingested or parsed, or the same again. -/
  | maps (d : Db φ)

def graphStep (w : GraphWorld φ) : GraphInput φ → GraphWorld φ
  | .begin pipeline args => ⟨w.db, w.graph, pipeline, args, fetchCandidateMaps args w.db⟩
  | .process t =>
    match w.pending with
    | [] => w
    | row :: rest =>
      { w with graph := (processMap w.pipeline w.args row t w.db w.graph).2, pending := rest }
  | .maps d => { w with db := d }

/-! ## The log -/

/-- What a map has contributed when its `ProcessedMap` node was created: the adjacencies, if they
were extracted, and how often they have been merged. -/
structure Entry where
  key : ClaimKey
  extraction : Option (List AdjacencyObservation)
  merged : Nat
  deriving DecidableEq

/-- The adjacencies that were extracted. -/
def Entry.pairs (e : Entry) : List (String × String) :=
  (e.extraction.getD []).map AdjacencyObservation.pair

/-- How much the entry adds to the count of an edge. -/
def Entry.times (e : Entry) (pair : String × String) : Nat := if pair ∈ e.pairs then e.merged else 0

/-- What `contribute` adds to the log. -/
def contribution (p : ConstraintGraphPipeline) (row : CandidateMap) (placements : List (BlockRow φ))
    (snapshot : String) (t : Trouble) (g : Graph) : Option Entry :=
  if g.Claimed (claimKey row snapshot) ∨ t.claim.times = 0 then none
  else if !t.claim.clean || t.stops then some ⟨claimKey row snapshot, none, 0⟩
  else
    match extractAdjacencies placements (marksOf p row snapshot) with
    | .error _ => some ⟨claimKey row snapshot, none, 0⟩
    | .ok [] => some ⟨claimKey row snapshot, some [], 0⟩
    | .ok (o :: observations) =>
      some ⟨claimKey row snapshot, some (o :: observations), t.merge.times⟩

/-- What the step adds to the log. -/
def entry (w : GraphWorld φ) : GraphInput φ → Option Entry
  | .process t =>
    match w.pending with
    | [] => none
    | row :: _ =>
      match readMap w.args row t w.db with
      | .error _ => none
      | .ok (placements, snapshot) => contribution w.pipeline row placements snapshot t w.graph
  | _ => none

/-- One step, with the log. -/
def logStep (s : GraphWorld φ × List Entry) (i : GraphInput φ) : GraphWorld φ × List Entry :=
  (graphStep s.1 i, s.2 ++ (entry s.1 i).toList)

/-! ## What a map does to the graph -/

/-- What the graph has become after a contribution. -/
structure Contributed (g g' : Graph) (e : Option Entry) : Prop where
  claimed : ∀ k, g'.Claimed k ↔ g.Claimed k ∨ ∃ e' ∈ e, e'.key = k
  count : ∀ pair, g'.count pair = g.count pair + ((e.map fun e' => e'.times pair).getD 0)
  fresh : ∀ e' ∈ e, ¬ g.Claimed e'.key

theorem contributed_none (g : Graph) : Contributed g g none :=
  ⟨fun k => by simp, fun pair => by simp, fun e he => absurd he (by simp)⟩

theorem merge_iterate {observations : List AdjacencyObservation}
    (hnodup : (observations.map AdjacencyObservation.pair).Nodup) (n : Nat) (g : Graph) :
    (∀ k, Graph.Claimed ((fun g => (merge observations g).2)^[n] g) k ↔ g.Claimed k) ∧
      ∀ pair, Graph.count ((fun g => (merge observations g).2)^[n] g) pair =
        g.count pair + if pair ∈ observations.map AdjacencyObservation.pair then n else 0 := by
  induction n with
  | zero => exact ⟨fun _ => Iff.rfl, fun pair => by simp⟩
  | succ n ih =>
    rw [Function.iterate_succ']
    refine ⟨ih.1, fun pair => ?_⟩
    simp only [Function.comp, merge] at ih ⊢
    rw [count_mergeGraph hnodup, ih.2 pair]
    split <;> omega

/-- A claim that has taken effect, with what follows it. -/
theorem contributed_of_claim {k : ClaimKey} {g : Graph} {processed : Table ProcessedMap.key}
    (hfresh : ¬ g.Claimed k)
    (hclaim : ∀ k', Graph.Claimed { g with processed := processed } k' ↔ k' = k ∨ g.Claimed k')
    {g' : Graph} {e : Entry} (hkey : e.key = k)
    (hclaimed : ∀ k', g'.Claimed k' ↔ Graph.Claimed { g with processed := processed } k')
    (hcount : ∀ pair, g'.count pair = g.count pair + e.times pair) : Contributed g g' (some e) where
  claimed := by
    intro k'
    rw [hclaimed, hclaim, or_comm]
    simp [hkey, eq_comm]
  count := by
    intro pair
    rw [hcount]
    rfl
  fresh := by
    intro e' he'
    rw [← Option.some.inj he', hkey]
    exact hfresh

/-- An entry without a merge. -/
theorem times_unmerged (k : ClaimKey) (extraction : Option (List AdjacencyObservation))
    (pair : String × String) : Entry.times ⟨k, extraction, 0⟩ pair = 0 := by
  simp [Entry.times]

/-- A first claim is in the ledger when the transaction takes effect at all, and learnt to be new
when the transaction is clean. -/
theorem execute_claimMap_new {k : ClaimKey} {g : Graph} (hfresh : ¬ g.Claimed k)
    (stageVersion : String) (claim : Delivery) :
    ∃ processed, (∀ k', Graph.Claimed { g with processed := processed } k' ↔
        k' = k ∨ g.Claimed k') ∧
      (claim.execute (claimMap k stageVersion) g).2 =
        (if claim.times = 0 then g else { g with processed := processed }) ∧
      ((claim.execute (claimMap k stageVersion) g).1 = some true ↔ claim.clean = true) := by
  obtain ⟨processed, hclaim, hclaimed⟩ := claimMap_of_not_claimed hfresh stageVersion
  have hagain := claimMap_of_claimed ((hclaimed k).mpr (.inl rfl)) stageVersion
  exact ⟨processed, hclaimed, Delivery.execute_claim hclaim hagain claim⟩

/-- A map whose claim has been made before contributes nothing. -/
theorem contribute_of_claimed {p : ConstraintGraphPipeline} {row : CandidateMap}
    {placements : List (BlockRow φ)} {snapshot : String} {t : Trouble} {g : Graph}
    (h : g.Claimed (claimKey row snapshot)) : (contribute p row placements snapshot t g).2 = g := by
  have hexec := Delivery.execute_claimed (claimMap_of_claimed h p.stageVersion) t.claim
  unfold contribute
  rcases hrun : t.claim.execute (claimMap (claimKey row snapshot) p.stageVersion) g with
    ⟨_ | _ | _, g₁⟩ <;> rw [hrun] at hexec
  · exact hexec.1
  · exact hexec.1
  · exact absurd rfl hexec.2

/-- A map whose claim is not learnt to be new contributes nothing but the claim. -/
theorem contribute_of_unclean {p : ConstraintGraphPipeline} {row : CandidateMap}
    {placements : List (BlockRow φ)} {snapshot : String} {t : Trouble} {g : Graph}
    (h : (t.claim.execute (claimMap (claimKey row snapshot) p.stageVersion) g).1 ≠ some true) :
    (contribute p row placements snapshot t g).2 =
      (t.claim.execute (claimMap (claimKey row snapshot) p.stageVersion) g).2 := by
  unfold contribute
  rcases hrun : t.claim.execute (claimMap (claimKey row snapshot) p.stageVersion) g with
    ⟨_ | _ | _, g₁⟩
  · rfl
  · rfl
  · exact absurd (congrArg Prod.fst hrun) h

/-- What a map contributes whose claim is new. -/
theorem contribute_spec_new {p : ConstraintGraphPipeline} {row : CandidateMap}
    {placements : List (BlockRow φ)} {snapshot : String} {t : Trouble} {g : Graph}
    (hfresh : ¬ g.Claimed (claimKey row snapshot)) (htimes : t.claim.times ≠ 0) :
    Contributed g (contribute p row placements snapshot t g).2
      (contribution p row placements snapshot t g) := by
  obtain ⟨processed, hclaimed, hstate, hanswer⟩ :=
    execute_claimMap_new hfresh p.stageVersion t.claim
  rw [if_neg htimes] at hstate
  have hunmerged : ∀ (g' : Graph) (extraction : Option (List AdjacencyObservation)),
      g' = { g with processed := processed } →
      Contributed g g' (some ⟨claimKey row snapshot, extraction, 0⟩) := by
    rintro g' extraction rfl
    refine contributed_of_claim hfresh hclaimed rfl (fun _ => Iff.rfl) fun pair => ?_
    rw [times_unmerged]
    rfl
  unfold contribution
  rw [if_neg (by tauto)]
  by_cases hclean : t.claim.clean = true
  · have hrun : t.claim.execute (claimMap (claimKey row snapshot) p.stageVersion) g =
        (some true, { g with processed := processed }) := Prod.ext (hanswer.mpr hclean) hstate
    simp only [contribute, hrun, hclean, Bool.not_true, Bool.false_or]
    cases t.stops with
    | true => exact hunmerged _ none rfl
    | false =>
      simp only [Bool.false_eq_true, if_false]
      cases hextract : extractAdjacencies placements (marksOf p row snapshot) with
      | error e => exact hunmerged _ none rfl
      | ok observations =>
        cases observations with
        | nil => exact hunmerged _ (some []) rfl
        | cons o observations =>
          have hgraph := Delivery.execute_state (merge (o :: observations)) t.merge
            { g with processed := processed }
          obtain ⟨hkeeps, hcounts⟩ := merge_iterate (extractAdjacencies_nodup hextract) t.merge.times
            { g with processed := processed }
          have hmerged : ∀ g', g' = (fun g => (merge (o :: observations) g).2)^[t.merge.times]
              { g with processed := processed } →
              Contributed g g' (some ⟨claimKey row snapshot, some (o :: observations),
                t.merge.times⟩) := by
            rintro g' rfl
            exact contributed_of_claim hfresh hclaimed rfl hkeeps hcounts
          simp only
          rcases hm : t.merge.execute (merge (o :: observations)) { g with processed := processed }
            with ⟨_ | _, g₂⟩ <;> rw [hm] at hgraph
          · exact hmerged g₂ hgraph
          · exact hmerged g₂ hgraph
  · have hfalse : t.claim.clean = false := by simpa using hclean
    rw [contribute_of_unclean (fun h => hclean (hanswer.mp h)), hfalse]
    exact hunmerged _ none hstate

theorem contribute_spec (p : ConstraintGraphPipeline) (row : CandidateMap)
    (placements : List (BlockRow φ)) (snapshot : String) (t : Trouble) (g : Graph) :
    Contributed g (contribute p row placements snapshot t g).2
      (contribution p row placements snapshot t g) := by
  by_cases hold : g.Claimed (claimKey row snapshot)
  · rw [contribute_of_claimed hold, contribution, if_pos (.inl hold)]
    exact contributed_none g
  by_cases htimes : t.claim.times = 0
  · obtain ⟨processed, -, hstate, hanswer⟩ := execute_claimMap_new hold p.stageVersion t.claim
    have hunclean : t.claim.clean ≠ true := fun h => by
      have hpos := Delivery.times_pos_of_answered (Delivery.answered_of_clean h)
      omega
    rw [contribute_of_unclean fun h => hunclean (hanswer.mp h), hstate, if_pos htimes, contribution,
      if_pos (.inr htimes)]
    exact contributed_none g
  · exact contribute_spec_new hold htimes

theorem graphStep_spec (w : GraphWorld φ) (i : GraphInput φ) :
    Contributed w.graph (graphStep w i).graph (entry w i) := by
  cases i with
  | begin pipeline args => exact contributed_none _
  | maps d => exact contributed_none _
  | process t =>
    simp only [graphStep, entry]
    cases hpending : w.pending with
    | nil => exact contributed_none _
    | cons row rest =>
      simp only [processMap]
      cases hread : readMap w.args row t w.db with
      | error outcome => exact contributed_none _
      | ok read => exact contribute_spec w.pipeline row read.1 read.2 t w.graph

/-! ## The log accounts for the graph -/

/-- The ledger has the maps of the log, and an edge counts what the log has merged. -/
structure Accounted (s : GraphWorld φ × List Entry) : Prop where
  claimed : ∀ k, s.1.graph.Claimed k ↔ ∃ e ∈ s.2, e.key = k
  count : ∀ pair, s.1.graph.count pair = (s.2.map fun e => e.times pair).sum

theorem accounted_new (s : GraphWorld φ × List Entry) (hgraph : s.1.graph = Graph.empty)
    (hlog : s.2 = []) : Accounted s := by
  refine ⟨fun k => ?_, fun pair => ?_⟩ <;> rw [hgraph, hlog]
  · simp [Graph.Claimed, Graph.empty, Table.empty]
  · simp [Graph.count, countIn, Graph.empty, Table.find, Table.empty]

theorem accounted_step (s : GraphWorld φ × List Entry) (i : GraphInput φ) (hs : Accounted s) :
    Accounted (logStep s i) := by
  have hspec := graphStep_spec s.1 i
  constructor
  · intro k
    simp only [logStep, hspec.claimed, hs.claimed, List.mem_append, Option.mem_toList]
    constructor
    · rintro (⟨e, he, hk⟩ | ⟨e, he, hk⟩)
      · exact ⟨e, .inl he, hk⟩
      · exact ⟨e, .inr he, hk⟩
    · rintro ⟨e, he | he, hk⟩
      · exact .inl ⟨e, he, hk⟩
      · exact .inr ⟨e, he, hk⟩
  · intro pair
    simp only [logStep, hspec.count, hs.count, List.map_append, List.sum_append]
    cases entry s.1 i <;> simp

end TraxMania.Constraints
