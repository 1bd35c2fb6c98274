import TraxMania.Constraints.Adjacency

/-
  The constraint graph in Neo4j (`migrations/neo4j`): blocks by their keys, one edge for an ordered
  pair of keys, and the ledger of processed maps; with the two transactions of
  `src/constraints/pipeline.py` that write it.
-/

namespace TraxMania.Constraints
open Lib

inductive ValidityLabel
  | valid
  | suspicious
  | unknown
  deriving DecidableEq, Repr

/-- A `Block` node. -/
structure Block where
  key : String
  family : String
  type : String
  variant : String
  deriving DecidableEq

/-- An `ADJACENT_TO` relationship. -/
structure Edge where
  aKey : String
  bKey : String
  observedInMapsCount : Nat
  benchmarkStrongCount : Nat
  brokenFixtureCount : Nat
  replaySupportedCount : Nat
  firstSeenSnapshot : String
  lastSeenSnapshot : String
  validityLabel : ValidityLabel
  deriving DecidableEq

def Edge.pair (e : Edge) : String × String := (e.aKey, e.bKey)

/-- The identity of a `ProcessedMap` node. -/
structure ClaimKey where
  mapId : Nat
  snapshotId : String
  parserVersion : String
  deriving DecidableEq

/-- A `ProcessedMap` node. -/
structure ProcessedMap where
  key : ClaimKey
  stageVersion : String
  deriving DecidableEq

structure Graph where
  blocks : Table Block.key
  edges : Table Edge.pair
  processed : Table ProcessedMap.key

/-- The graph that the migrations leave. -/
def Graph.empty : Graph := ⟨Table.empty, Table.empty, Table.empty⟩

/-- The map has been recorded. -/
def Graph.Claimed (g : Graph) (k : ClaimKey) : Prop := k ∈ g.processed.rows.map ProcessedMap.key

instance (g : Graph) (k : ClaimKey) : Decidable (g.Claimed k) :=
  inferInstanceAs (Decidable (k ∈ g.processed.rows.map ProcessedMap.key))

/-- The `observed_in_maps_count` of an edge, 0 where there is none. -/
def countIn (edges : Table Edge.pair) (pair : String × String) : Nat :=
  ((edges.find pair).map Edge.observedInMapsCount).getD 0

def Graph.count (g : Graph) (pair : String × String) : Nat := countIn g.edges pair

/-! ## The claim -/

/-- `_claim_map`. -/
def claimMap (k : ClaimKey) (stageVersion : String) (g : Graph) : Bool × Graph :=
  match g.processed.insert ⟨k, stageVersion⟩ with
  | some processed => (true, { g with processed := processed })
  | none => (false, g)

/-! ## The merge -/

/-- `_MERGE_NODES_QUERY`, for one node. -/
def mergeNode (blocks : Table Block.key) (k : BlockKey) : Table Block.key :=
  match blocks.insert ⟨k.normalizedKey, k.family, k.type, k.variant⟩ with
  | some blocks' => blocks'
  | none => blocks

/-- The `CASE` of `_MERGE_EDGES_QUERY`. -/
def Edge.relabel (e : Edge) : Edge :=
  { e with
    validityLabel :=
      if e.benchmarkStrongCount ≥ 1 then .valid
      else if e.brokenFixtureCount > 0 ∧ e.benchmarkStrongCount = 0 ∧ e.replaySupportedCount = 0 then
        .suspicious
      else .unknown }

/-- `ON CREATE`. -/
def createdEdge (o : AdjacencyObservation) : Edge :=
  Edge.relabel
    { aKey := o.a.normalizedKey
      bKey := o.b.normalizedKey
      observedInMapsCount := 1
      benchmarkStrongCount := if o.isBenchmarkStrong then 1 else 0
      brokenFixtureCount := if o.isBrokenFixture then 1 else 0
      replaySupportedCount := 0
      firstSeenSnapshot := o.snapshotId
      lastSeenSnapshot := o.snapshotId
      validityLabel := .unknown }

/-- `ON MATCH`. -/
def matchedEdge (o : AdjacencyObservation) (e : Edge) : Edge :=
  Edge.relabel
    { e with
      observedInMapsCount := e.observedInMapsCount + 1
      benchmarkStrongCount := e.benchmarkStrongCount + if o.isBenchmarkStrong then 1 else 0
      brokenFixtureCount := e.brokenFixtureCount + if o.isBrokenFixture then 1 else 0
      lastSeenSnapshot := o.snapshotId }

theorem matchedEdge_pair (o : AdjacencyObservation) (e : Edge) : (matchedEdge o e).pair = e.pair := rfl

/-- The block is there. -/
def hasBlock (blocks : Table Block.key) (key : String) : Bool := (blocks.find key).isSome

/-- `_MERGE_EDGES_QUERY`, for one edge: nothing where `MATCH` does not find both blocks. -/
def mergeEdge (blocks : Table Block.key) (edges : Table Edge.pair) (o : AdjacencyObservation) :
    Table Edge.pair :=
  if hasBlock blocks o.a.normalizedKey && hasBlock blocks o.b.normalizedKey then
    match edges.insert (createdEdge o) with
    | some edges' => edges'
    | none => edges.update (fun e => e.pair = o.pair) (matchedEdge o) (matchedEdge_pair o)
  else edges

/-- `_merge_graph`. -/
def mergeGraph (keys : List BlockKey) (observations : List AdjacencyObservation) (g : Graph) : Graph :=
  let blocks := keys.foldl mergeNode g.blocks
  { g with blocks := blocks, edges := observations.foldl (mergeEdge blocks) g.edges }

/-! ## What they do -/

theorem claimMap_of_claimed {k : ClaimKey} {g : Graph} (h : g.Claimed k) (stageVersion : String) :
    claimMap k stageVersion g = (false, g) := by
  have hnone : g.processed.insert ⟨k, stageVersion⟩ = none := by
    cases hins : g.processed.insert ⟨k, stageVersion⟩ with
    | none => rfl
    | some t => exact absurd h (Table.key_notMem_of_insert hins)
  simp [claimMap, hnone]

/-- The graph after a first claim. -/
theorem claimMap_of_not_claimed {k : ClaimKey} {g : Graph} (h : ¬ g.Claimed k)
    (stageVersion : String) :
    ∃ processed, claimMap k stageVersion g = (true, { g with processed := processed }) ∧
      ∀ k', Graph.Claimed { g with processed := processed } k' ↔ k' = k ∨ g.Claimed k' := by
  cases hins : g.processed.insert ⟨k, stageVersion⟩ with
  | none => exact absurd (Table.key_mem_of_insert_eq_none hins) h
  | some t =>
    refine ⟨t, by simp [claimMap, hins], fun k' => ?_⟩
    simp only [Graph.Claimed, Table.rows_of_insert hins, List.map_append, List.mem_append]
    rw [List.map_singleton, List.mem_singleton, or_comm]

theorem hasBlock_mergeNode {blocks : Table Block.key} {k : BlockKey} {key : String} :
    hasBlock (mergeNode blocks k) key ↔ key = k.normalizedKey ∨ hasBlock blocks key := by
  unfold mergeNode
  cases hins : blocks.insert ⟨k.normalizedKey, k.family, k.type, k.variant⟩ with
  | some blocks' =>
    simp only [hasBlock, Table.find_insert hins]
    split
    · next h => simp [h.symm]
    · next h => simp [Ne.symm h]
  | none =>
    obtain ⟨b, hb, hkey⟩ := List.mem_map.mp (Table.key_mem_of_insert_eq_none hins)
    have hfind : hasBlock blocks k.normalizedKey := by
      rw [hasBlock, Table.find_eq_some.mpr ⟨hb, hkey⟩]
      rfl
    constructor
    · exact .inr
    · rintro (rfl | h)
      · exact hfind
      · exact h

/-- After the nodes of a merge every key has its block. -/
theorem hasBlock_mergeNodes {keys : List BlockKey} {blocks : Table Block.key} {key : String}
    (h : key ∈ keys.map BlockKey.normalizedKey) : hasBlock (keys.foldl mergeNode blocks) key := by
  have hloop : ∀ (keys : List BlockKey) (blocks : Table Block.key),
      hasBlock (keys.foldl mergeNode blocks) key ↔
        key ∈ keys.map BlockKey.normalizedKey ∨ hasBlock blocks key := by
    intro keys
    induction keys with
    | nil => simp
    | cons k keys ih =>
      intro blocks
      rw [List.foldl_cons, ih, hasBlock_mergeNode, List.map_cons, List.mem_cons]
      tauto
  exact (hloop keys blocks).mpr (.inl h)

/-- The edge of a pair after an observation of it. -/
def touchedEdge (o : AdjacencyObservation) (old : Option Edge) : Edge :=
  match old with
  | none => createdEdge o
  | some e => matchedEdge o e

/-- One observation touches the edge of its pair, and no other. -/
theorem find_mergeEdge {blocks : Table Block.key} {edges : Table Edge.pair}
    {o : AdjacencyObservation} (ha : hasBlock blocks o.a.normalizedKey)
    (hb : hasBlock blocks o.b.normalizedKey) (pair : String × String) :
    (mergeEdge blocks edges o).find pair =
      if o.pair = pair then some (touchedEdge o (edges.find pair)) else edges.find pair := by
  have hpair : (createdEdge o).pair = o.pair := rfl
  rw [mergeEdge, if_pos (by rw [ha, hb]; rfl)]
  cases hins : edges.insert (createdEdge o) with
  | some edges' =>
    dsimp only
    rw [Table.find_insert hins, hpair]
    split
    · next h =>
      have hnone : edges.find pair = none := by
        rw [Table.find_eq_none]
        intro e he hkey
        exact Table.key_notMem_of_insert hins
          (List.mem_map.mpr ⟨e, he, hkey.trans (h.symm.trans hpair.symm)⟩)
      rw [hnone]
      rfl
    · rfl
  | none =>
    obtain ⟨e, he, hkey⟩ := List.mem_map.mp (Table.key_mem_of_insert_eq_none hins)
    have hkey : e.pair = o.pair := hkey.trans hpair
    dsimp only
    rw [Table.find_update]
    by_cases h : o.pair = pair
    · have hfind : edges.find pair = some e := Table.find_eq_some.mpr ⟨he, hkey.trans h⟩
      rw [hfind, if_pos h, Option.map_some, if_pos (decide_eq_true hkey)]
      rfl
    · rw [if_neg h]
      cases hfind : edges.find pair with
      | none => rfl
      | some e' =>
        have hne : e'.pair ≠ o.pair := fun hkey' =>
          h (hkey'.symm.trans (Table.find_eq_some.mp hfind).2)
        rw [Option.map_some, if_neg (by simpa using hne)]

theorem countIn_mergeEdge {blocks : Table Block.key} {edges : Table Edge.pair}
    {o : AdjacencyObservation} (ha : hasBlock blocks o.a.normalizedKey)
    (hb : hasBlock blocks o.b.normalizedKey) (pair : String × String) :
    countIn (mergeEdge blocks edges o) pair = countIn edges pair + if o.pair = pair then 1 else 0 := by
  unfold countIn
  rw [find_mergeEdge ha hb]
  split
  · cases edges.find pair with
    | none => rfl
    | some e => rfl
  · rfl

theorem countIn_mergeEdges {blocks : Table Block.key} {observations : List AdjacencyObservation}
    (hblocks : ∀ o ∈ observations,
      hasBlock blocks o.a.normalizedKey ∧ hasBlock blocks o.b.normalizedKey)
    (hnodup : (observations.map AdjacencyObservation.pair).Nodup) (edges : Table Edge.pair)
    (pair : String × String) :
    countIn (observations.foldl (mergeEdge blocks) edges) pair =
      countIn edges pair + if pair ∈ observations.map AdjacencyObservation.pair then 1 else 0 := by
  induction observations generalizing edges with
  | nil => simp
  | cons o observations ih =>
    obtain ⟨ha, hb⟩ := hblocks o List.mem_cons_self
    rw [List.map_cons, List.nodup_cons] at hnodup
    rw [List.foldl_cons, ih (fun o' h => hblocks o' (List.mem_cons_of_mem o h)) hnodup.2,
      countIn_mergeEdge ha hb, List.map_cons]
    by_cases h : o.pair = pair
    · rw [if_pos h, if_neg (h ▸ hnodup.1), if_pos (by rw [h]; exact List.mem_cons_self)]
    · have hmem : pair ∈ o.pair :: observations.map AdjacencyObservation.pair ↔
          pair ∈ observations.map AdjacencyObservation.pair := by
        rw [List.mem_cons]
        exact ⟨fun hp => hp.resolve_left fun e => h e.symm, .inr⟩
      simp only [if_neg h, hmem]
      omega

/-- A merge counts every adjacency of the map once, and leaves the ledger alone. -/
theorem count_mergeGraph {observations : List AdjacencyObservation}
    (hnodup : (observations.map AdjacencyObservation.pair).Nodup) (g : Graph)
    (pair : String × String) :
    (mergeGraph (uniqueBlockKeys observations) observations g).count pair =
      g.count pair + if pair ∈ observations.map AdjacencyObservation.pair then 1 else 0 :=
  countIn_mergeEdges
    (fun _ ho => ⟨hasBlock_mergeNodes (mem_uniqueBlockKeys ho).1,
      hasBlock_mergeNodes (mem_uniqueBlockKeys ho).2⟩) hnodup g.edges pair

end TraxMania.Constraints
