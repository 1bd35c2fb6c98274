import TraxMania.Generation.GeneratedMap
import Mathlib.Algebra.Order.BigOperators.Group.List

/-
  When `generate_from_base` returns an artifact for its rows, accepted or rejected, and when the
  schema makes it raise instead.
-/

namespace TraxMania.Generation.Generator

open TraxMania.Grid Lib.SortBy Route Validation Strip Ai

variable {σ : Type}

/-! ## What the schema wants of the rows -/

/-- The waypoints that the artifact lists: those of the four tags that are placed on the grid. -/
def gridWaypoints (rows : MapRows σ) : List (WaypointRow σ) :=
  rows.waypoints.filter fun w => decide (w.tag ∈ anchorTags) && w.cell.isSome

/-- The row of a block with a family, a name and a quarter turn. -/
structure ListableBlock (row : BlockPlacementRow) : Prop where
  family : row.blockFamily ≠ some ""
  name : row.blockType ≠ some ""
  rotation : 0 ≤ row.rotation.getD 0 ∧ row.rotation.getD 0 ≤ 3

section Route

variable [Decimals σ]

/-- The numbers of a route lie in the ranges of the schema. -/
structure RouteInRange (r : AssembledRoute σ) : Prop where
  orders : ∀ iv ∈ r.intervals, 0 ≤ iv.src.order ∧ 0 ≤ iv.dst.order
  lengths : ∀ iv ∈ r.intervals, 0 ≤ iv.chosen.pathLength ∧ 0 ≤ iv.chosen.expectedTimeMs
  learned : ∀ iv ∈ r.intervals, InUnit iv.chosen.learnedCorridorScore
  combined : ∀ iv ∈ r.intervals, ∀ s ∈ iv.chosen.combinedSequenceScore, InUnit s
  mean : InUnit r.aiConfidence

/-- The route that the rows, the seed and the validator specify: every interval of the anchor chain
    has a scored corridor with cells, and `r` carries the picked ones. -/
structure RouteFor (py : Python) (rows : MapRows σ) (mapId seed : Int)
    (validator : Option (Validator σ)) (r : AssembledRoute σ) : Prop where
  routed : Routed py.digest ((assembleArgs rows mapId seed validator).read py)
  isRoute : IsRoute py.digest ((assembleArgs rows mapId seed validator).read py) r

/-- The artifact lists the block of a row: all of them, or those in the cells kept around the
    route when it is stripped. -/
def ListsBlock (py : Python) (rows : MapRows σ) (mapId : Int) (inputs : GenerationInputs)
    (validator : Option (Validator σ)) (row : BlockPlacementRow) : Prop :=
  inputs.strip = true → ∀ r, RouteFor py rows mapId inputs.randomSeed validator r →
    row.block.cell ∈ computeKeptCells r defaultPolicy (baseMapData rows).anchorCells

/-- The rows can be presented in an artifact. -/
structure Presentable (py : Python) (db : Database σ) (inputs : GenerationInputs) (mapId : Int)
    (rows : MapRows σ) (validator : Option (Validator σ)) : Prop where
  ranked : buildCandidateValidator py db rows (baseMapData rows).blocks = .ok validator
  readable : Readable py (corridorsQuery Route.classificationVersion rows.corridors)
  waypoints : 2 ≤ (gridWaypoints rows).length
  numbers : ∀ w ∈ gridWaypoints rows, 0 ≤ w.waypointIndex ∧ 0 ≤ w.waypointOrder
  someBlock : ∃ row ∈ rows.blockPlacements, ListsBlock py rows mapId inputs validator row
  blocks : ∀ row ∈ rows.blockPlacements, ListsBlock py rows mapId inputs validator row →
    ListableBlock row
  route : ∀ r, RouteFor py rows mapId inputs.randomSeed validator r → RouteInRange r

/-- Assembly finds no route, or one below the floor of the gate. -/
def Rejected (py : Python) (rows : MapRows σ) (mapId seed : Int) (validator : Option (Validator σ)) :
    Prop :=
  ∀ r, RouteFor py rows mapId seed validator r → r.aiConfidence < aiConfidenceFloor

/-- The run returns an artifact that the schema accepts, and a rejection is told in it. -/
def ReturnsArtifact (py : Python) (fixed : Nat → σ → String) (message : GeneratedMap σ → String)
    (db : Database σ) (inputs : GenerationInputs) (mapId : Int) (rows : MapRows σ) : Prop :=
  ∃ g, generateMap py fixed message db inputs = .ok g ∧ validateGeneratedMap message g = none ∧
    ∀ validator, buildCandidateValidator py db rows (baseMapData rows).blocks = .ok validator →
      Rejected py rows mapId inputs.randomSeed validator →
      g.finishability.routeVerified = false ∧ g.finishability.rejectReason ≠ none

end Route

/-! ## The specified route is the assembled one -/

section Unique

variable [Score σ]

theorem chosenIntervals_unique {digest : String → Nat} {inputs : AssemblyInputs σ}
    {ivs ivs' : List (IntervalAssembly σ)} (h : ChosenIntervals digest inputs ivs)
    (h' : ChosenIntervals digest inputs ivs') : ivs = ivs' := by
  have hlen : ivs.length = ivs'.length := h.count.trans h'.count.symm
  apply List.ext_getElem hlen
  intro i hi hi'
  have hat := h.interval i _ (List.getElem?_eq_getElem hi)
  have hat' := h'.interval i _ (List.getElem?_eq_getElem hi')
  obtain ⟨top, htop, hchosen⟩ := hat.chosen
  obtain ⟨top', htop', hchosen'⟩ := hat'.chosen
  have hsame : top = top' := Option.some.inj (htop.symm.trans htop')
  have hsrc : ivs[i].src = ivs'[i].src := Option.some.inj (hat.src.symm.trans hat'.src)
  have hdst : ivs[i].dst = ivs'[i].dst := Option.some.inj (hat.dst.symm.trans hat'.dst)
  have hindex : ivs[i].index = ivs'[i].index := hat.index.trans hat'.index.symm
  generalize ivs[i] = iv at hsrc hdst hindex hchosen
  generalize ivs'[i] = iv' at hsrc hdst hindex hchosen'
  obtain ⟨index, src, dst, chosen⟩ := iv
  obtain ⟨index', src', dst', chosen'⟩ := iv'
  rw [IntervalAssembly.mk.injEq]
  exact ⟨hindex, hsrc, hdst, hchosen.trans (hsame ▸ hchosen'.symm)⟩

theorem isRoute_unique {digest : String → Nat} {inputs : AssemblyInputs σ}
    {r r' : AssembledRoute σ} (h : IsRoute digest inputs r) (h' : IsRoute digest inputs r') :
    r = r' := by
  have hivs : r.intervals = r'.intervals := chosenIntervals_unique h.intervals h'.intervals
  have hcells := h.cellsTotal.trans (hivs ▸ h'.cellsTotal.symm)
  have htime := h.estimatedTimeMs.trans (hivs ▸ h'.estimatedTimeMs.symm)
  have hmean := h.aiConfidence.trans (hivs ▸ h'.aiConfidence.symm)
  have hmap := h.mapId.trans h'.mapId.symm
  have hanchors := h.anchors.trans h'.anchors.symm
  obtain ⟨mapId, anchors, intervals, cellsTotal, estimatedTimeMs, aiConfidence⟩ := r
  obtain ⟨mapId', anchors', intervals', cellsTotal', estimatedTimeMs', aiConfidence'⟩ := r'
  rw [AssembledRoute.mk.injEq]
  exact ⟨hmap, hanchors, hivs, hcells, htime, hmean⟩

end Unique

section Condition

variable [Decimals σ]

theorem routeFor_iff {py : Python} {rows : MapRows σ} {mapId seed : Int}
    {validator : Option (Validator σ)} {r : AssembledRoute σ} :
    RouteFor py rows mapId seed validator r ↔ routeOf py rows mapId seed validator = .ok r := by
  unfold routeOf
  constructor
  · intro h
    rcases route_or_error py.digest ((assembleArgs rows mapId seed validator).read py) with
      ⟨-, r', hr', hroute⟩ | ⟨hnot, -⟩
    · rw [hr', isRoute_unique h.isRoute hroute]
    · exact absurd h.routed hnot
  · intro h
    obtain ⟨hrouted, hroute⟩ := routed_of_ok h
    exact ⟨hrouted, hroute⟩

/-! ## The blocks and the checkpoints of the artifact -/

omit [Decimals σ] in
theorem blockConforms_iff (row : BlockPlacementRow) :
    BlockConforms row.block ↔ ListableBlock row := by
  have hname : ∀ text : Option String, text.getD "Unknown" ≠ "" ↔ text ≠ some "" := by
    intro text
    cases text with
    | none => simp
    | some t => simp
  have hconforms : BlockConforms row.block ↔ row.blockFamily.getD "Unknown" ≠ "" ∧
      row.blockType.getD "Unknown" ≠ "" ∧ 0 ≤ row.rotation.getD 0 ∧ row.rotation.getD 0 ≤ 3 :=
    Iff.rfl
  rw [hconforms, hname, hname]
  constructor
  · intro ⟨hfamily, htype, hrotation⟩
    exact ⟨hfamily, htype, hrotation⟩
  · intro h
    exact ⟨h.family, h.name, h.rotation⟩

theorem mem_baseBlocks {rows : MapRows σ} {b : MapBlock} :
    b ∈ (baseMapData rows).blocks ↔ ∃ row ∈ rows.blockPlacements, row.block = b := by
  show b ∈ (sortBy (·.placementIndex) rows.blockPlacements).map BlockPlacementRow.block ↔ _
  rw [List.mem_map]
  simp only [mem_sortBy]

omit [Decimals σ] in
/-- What the strip of both entry points keeps, and its counts. -/
theorem stripRoute_default (r : AssembledRoute σ) (blocks : List MapBlock)
    (anchorCells : List Cell) :
    (stripRoute r blocks defaultPolicy anchorCells).strippedBlocks =
        filterBlocksByCells blocks (computeKeptCells r defaultPolicy anchorCells) ∧
      (stripRoute r blocks defaultPolicy anchorCells).keptBlockCount =
        (stripRoute r blocks defaultPolicy anchorCells).strippedBlocks.length ∧
      (stripRoute r blocks defaultPolicy anchorCells).baseBlockCount = blocks.length := by
  unfold stripRoute
  rw [if_neg (by decide)]
  exact ⟨rfl, rfl, rfl⟩

omit [Decimals σ] in
/-- The emitted blocks: those of the base map, in the kept cells when a route is stripped. -/
theorem mem_emittedBlocks {base : BaseMapData} {strip : Bool}
    {route : Except AssemblyError (AssembledRoute σ)} {b : MapBlock} :
    b ∈ emittedBlocks base (stripIfAsked strip route base) ↔ b ∈ base.blocks ∧
      (strip = true → ∀ r, route = .ok r →
        b.cell ∈ computeKeptCells r defaultPolicy base.anchorCells) := by
  unfold emittedBlocks stripIfAsked
  split
  · next r =>
    rw [Option.map_some, Option.getD_some, (stripRoute_default r _ _).1, filterBlocksByCells,
      List.mem_filter, decide_eq_true_eq]
    constructor
    · rintro ⟨hmem, hkept⟩
      exact ⟨hmem, fun _ r' hr' => Except.ok.inj hr' ▸ hkept⟩
    · rintro ⟨hmem, hkept⟩
      exact ⟨hmem, hkept rfl r rfl⟩
  · next hno =>
    rw [Option.map_none, Option.getD_none]
    constructor
    · intro hmem
      exact ⟨hmem, fun hstrip r hr => absurd hr (hno r hstrip)⟩
    · intro h
      exact h.1

omit [Decimals σ] in
theorem checkpoint?_isSome (w : WaypointRow σ) : w.checkpoint?.isSome = w.cell.isSome := by
  rw [WaypointRow.checkpoint?, Option.isSome_map]

theorem mem_checkpoints {rows : MapRows σ} {c : MapCheckpoint} :
    c ∈ (baseMapData rows).checkpoints ↔ ∃ w ∈ gridWaypoints rows, w.checkpoint? = some c := by
  show c ∈ (checkpointsQuery rows.waypoints).filterMap WaypointRow.checkpoint? ↔ _
  rw [List.mem_filterMap]
  unfold checkpointsQuery gridWaypoints
  simp only [mem_sortBy, List.mem_filter, Bool.and_eq_true, ← checkpoint?_isSome]
  constructor
  · intro ⟨w, ⟨hw, htag⟩, hc⟩
    exact ⟨w, ⟨hw, htag, by rw [hc]; rfl⟩, hc⟩
  · intro ⟨w, ⟨hw, htag, _⟩, hc⟩
    exact ⟨w, ⟨hw, htag⟩, hc⟩

theorem length_checkpoints (rows : MapRows σ) :
    (baseMapData rows).checkpoints.length = (gridWaypoints rows).length := by
  show ((checkpointsQuery rows.waypoints).filterMap WaypointRow.checkpoint?).length = _
  have hperm := (sortBy_perm (fun r : WaypointRow σ => (toLex (tagRank r.tag,
    toLex (r.waypointOrder, r.waypointIndex)) : Nat ×ₗ Int ×ₗ Int))
    (rows.waypoints.filter fun r => decide (r.tag ∈ anchorTags))).filterMap WaypointRow.checkpoint?
  rw [checkpointsQuery, hperm.length_eq, List.length_filterMap_eq_countP,
    List.countP_eq_length_filter, List.filter_filter]
  unfold gridWaypoints
  congr 2
  funext w
  rw [checkpoint?_isSome, Bool.and_comm]

omit [Decimals σ] in
theorem checkpointConforms_iff {w : WaypointRow σ} {rows : MapRows σ} {c : MapCheckpoint}
    (hw : w ∈ gridWaypoints rows) (hc : w.checkpoint? = some c) :
    CheckpointConforms c ↔ 0 ≤ w.waypointIndex ∧ 0 ≤ w.waypointOrder := by
  obtain ⟨cell, -, rfl⟩ := Option.map_eq_some_iff.mp hc
  have htag : w.tag ∈ ["Spawn", "Checkpoint", "LinkedCheckpoint", "Goal"] := by
    have hboth := (List.mem_filter.mp hw).2
    rw [Bool.and_eq_true] at hboth
    exact of_decide_eq_true hboth.1
  show 0 ≤ w.waypointIndex ∧ 0 ≤ w.waypointOrder ∧ w.tag ∈ _ ↔ _
  constructor
  · intro ⟨hindex, horder, _⟩
    exact ⟨hindex, horder⟩
  · intro ⟨hindex, horder⟩
    exact ⟨hindex, horder, htag⟩

/-! ## The intervals of the artifact -/

/-- The tags of the two ends of an interval are those that the schema lists for them. -/
theorem interval_tags {py : Python} {rows : MapRows σ} {mapId seed : Int}
    {validator : Option (Validator σ)} {r : AssembledRoute σ}
    (h : RouteFor py rows mapId seed validator r) {iv : IntervalAssembly σ}
    (hiv : iv ∈ r.intervals) :
    iv.src.tag ∈ ["Spawn", "Checkpoint", "LinkedCheckpoint"] ∧
      iv.dst.tag ∈ ["Checkpoint", "LinkedCheckpoint", "Goal"] := by
  have hlinked : LinkedRows (rows.waypoints.map (·.toCheckpointRow)) :=
    linked_iff.mp h.routed.guarded.linked
  obtain ⟨cps, goal, hchain, -, hcps, hgoal⟩ := linked_anchors hlinked
  obtain ⟨i, hi⟩ := List.mem_iff_getElem?.mp hiv
  have hat := h.isRoute.intervals.interval i iv hi
  have hanchors : ((assembleArgs rows mapId seed validator).read py).anchors = _ := hchain
  have hspawn : ∀ a ∈ ((taggedRows (rows.waypoints.map (·.toCheckpointRow)) "Spawn").head?.map
      CheckpointRow.anchor).toList, a.tag = "Spawn" := by
    intro a ha
    obtain ⟨row, hrow, rfl⟩ := Option.map_eq_some_iff.mp (Option.mem_toList.mp ha)
    exact ((mem_taggedRows (by decide)).mp (List.mem_of_mem_head? hrow)).2
  have hsrc := hat.src
  have hdst := hat.dst
  rw [hanchors] at hsrc hdst
  generalize ((taggedRows (rows.waypoints.map (·.toCheckpointRow)) "Spawn").head?.map
    CheckpointRow.anchor) = spawn at hspawn hsrc hdst
  have hlt := (List.getElem?_eq_some_iff.mp hdst).1
  rw [List.length_append, List.length_singleton] at hlt
  constructor
  · -- the source is not the last anchor
    rw [List.getElem?_append_left (by omega)] at hsrc
    rcases List.mem_append.mp (List.mem_of_getElem? hsrc) with hmem | hmem
    · simp [hspawn _ hmem]
    · simp [hcps _ hmem]
  · -- the destination is not the first one
    have htail : iv.dst ∈ cps ++ [goal] := by
      cases spawn with
      | none =>
        rw [Option.toList_none, List.nil_append] at hdst
        exact List.mem_of_getElem? hdst
      | some a =>
        rw [Option.toList_some, List.append_assoc, List.singleton_append,
          List.getElem?_cons_succ] at hdst
        exact List.mem_of_getElem? hdst
    rcases List.mem_append.mp htail with hmem | hmem
    · simp [hcps _ hmem]
    · rw [List.mem_singleton.mp hmem]
      simp [hgoal]

/-- The entries of a specified route conform exactly when its numbers are in range. -/
theorem routeConforms_iff {py : Python} {rows : MapRows σ} {mapId seed : Int}
    {validator : Option (Validator σ)} {r : AssembledRoute σ} (fixed : Nat → σ → String)
    (h : RouteFor py rows mapId seed validator r) :
    ((∀ e ∈ intervalEntries (.ok r), IntervalConforms e) ∧ 0 ≤ r.cellsTotal ∧
        ∀ c ∈ corridorsUsedEntries (.ok r), CorridorUsedConforms c) ∧
      FinishabilityConforms (runFinishabilityGate fixed (.ok r)) ↔ RouteInRange r := by
  have hgate : FinishabilityConforms (runFinishabilityGate fixed (.ok r)) ↔
      0 ≤ r.estimatedTimeMs ∧ InUnit r.aiConfidence := by
    unfold runFinishabilityGate FinishabilityConforms
    simp only
    split
    · simp [gateVersion]
    · simp [gateVersion]
  have hentries : (∀ e ∈ intervalEntries (.ok r), IntervalConforms e) ↔
      ∀ iv ∈ r.intervals, IntervalConforms (intervalEntry iv) := List.forall_mem_map
  have hused : (∀ c ∈ corridorsUsedEntries (.ok r), CorridorUsedConforms c) ↔
      ∀ iv ∈ r.intervals, CorridorUsedConforms (corridorUsed iv) := List.forall_mem_map
  rw [hgate, hentries, hused]
  constructor
  · intro ⟨⟨hentry, _, hcorridor⟩, _, hmean⟩
    exact {
      orders := fun iv hiv => ⟨(hentry iv hiv).2.1, (hentry iv hiv).2.2.2.1⟩
      lengths := fun iv hiv => (hentry iv hiv).2.2.2.2.2
      learned := fun iv hiv => (hcorridor iv hiv).1
      combined := fun iv hiv => (hcorridor iv hiv).2.2
      mean := hmean }
  · intro hrange
    have htime : ∀ iv ∈ r.intervals, 0 ≤ expectedTimeMs σ iv.chosen.pathLength := by
      intro iv hiv
      obtain ⟨i, hi⟩ := List.mem_iff_getElem?.mp hiv
      obtain ⟨top, -, hchosen⟩ := (h.isRoute.intervals.interval i iv hi).chosen
      have hexpected := (hrange.lengths iv hiv).2
      rw [hchosen] at hexpected ⊢
      exact hexpected
    refine ⟨⟨?_, ?_, ?_⟩, ?_, hrange.mean⟩
    · intro iv hiv
      obtain ⟨hsrc, hdst⟩ := interval_tags h hiv
      obtain ⟨hsrcOrder, hdstOrder⟩ := hrange.orders iv hiv
      exact ⟨hsrc, hsrcOrder, hdst, hdstOrder, hrange.learned iv hiv, hrange.lengths iv hiv⟩
    · rw [h.isRoute.cellsTotal]
      exact List.sum_nonneg (List.forall_mem_map.mpr fun iv hiv => (hrange.lengths iv hiv).1)
    · intro iv hiv
      exact ⟨hrange.learned iv hiv, (hrange.lengths iv hiv).1, hrange.combined iv hiv⟩
    · rw [h.isRoute.estimatedTimeMs]
      exact List.sum_nonneg (List.forall_mem_map.mpr htime)

/-! ## When an artifact is returned -/

/-- The block of a row is among the emitted ones when the artifact lists it. -/
theorem mem_emitted_iff {py : Python} {inputs : GenerationInputs} {mapId : Int}
    {rows : MapRows σ} {validator : Option (Validator σ)} {row : BlockPlacementRow}
    (hrow : row ∈ rows.blockPlacements) :
    row.block ∈ emittedBlocks (baseMapData rows) (stripIfAsked inputs.strip
        (routeOf py rows mapId inputs.randomSeed validator) (baseMapData rows)) ↔
      ListsBlock py rows mapId inputs validator row := by
  rw [mem_emittedBlocks]
  unfold ListsBlock
  simp only [routeFor_iff]
  exact and_iff_right (mem_baseBlocks.mpr ⟨row, hrow, rfl⟩)

/-- The `map` object conforms exactly when some block is listed and every listed one can be, and two
    waypoints are on the grid, with their numbers. -/
theorem mapConforms_iff {py : Python} {inputs : GenerationInputs} {mapId : Int}
    {rows : MapRows σ} {validator : Option (Validator σ)} (fixed : Nat → σ → String) :
    MapConforms (buildGeneratedMap fixed inputs (baseMapData rows)
        (routeOf py rows mapId inputs.randomSeed validator)).toArtifact ↔
      (∃ row ∈ rows.blockPlacements, ListsBlock py rows mapId inputs validator row) ∧
        (∀ row ∈ rows.blockPlacements, ListsBlock py rows mapId inputs validator row →
          ListableBlock row) ∧
        2 ≤ (gridWaypoints rows).length ∧
        ∀ w ∈ gridWaypoints rows, 0 ≤ w.waypointIndex ∧ 0 ≤ w.waypointOrder := by
  have hblocks : ∀ b ∈ emittedBlocks (baseMapData rows) (stripIfAsked inputs.strip
      (routeOf py rows mapId inputs.randomSeed validator) (baseMapData rows)),
      ∃ row ∈ rows.blockPlacements, row.block = b := fun b hb =>
    mem_baseBlocks.mp (mem_emittedBlocks.mp hb).1
  have hcount : 1 ≤ intervalCount (intervalEntries (routeOf py rows mapId inputs.randomSeed
      validator)) (baseMapData rows).checkpoints := by
    unfold intervalCount
    split
    · exact Nat.le_max_left 1 _
    · next hne =>
      rw [List.isEmpty_iff] at hne
      exact List.length_pos_iff.mpr hne
  show 1 ≤ intervalCount _ _ ∧ 1 ≤ (emittedBlocks _ _).length ∧
    (∀ b ∈ emittedBlocks _ _, BlockConforms b) ∧ 2 ≤ (baseMapData rows).checkpoints.length ∧
    (∀ c ∈ (baseMapData rows).checkpoints, CheckpointConforms c) ↔ _
  rw [and_iff_right hcount, length_checkpoints, Nat.one_le_iff_ne_zero, ← Nat.pos_iff_ne_zero,
    List.length_pos_iff_exists_mem]
  constructor
  · intro ⟨⟨b, hb⟩, hconforms, htwo, hpoints⟩
    obtain ⟨row, hrow, rfl⟩ := hblocks b hb
    refine ⟨⟨row, hrow, (mem_emitted_iff hrow).mp hb⟩, ?_, htwo, ?_⟩
    · intro row' hrow' hlisted
      exact (blockConforms_iff row').mp (hconforms _ ((mem_emitted_iff hrow').mpr hlisted))
    · intro w hw
      obtain ⟨c, hc⟩ : ∃ c, w.checkpoint? = some c := by
        rw [← Option.isSome_iff_exists, checkpoint?_isSome]
        have hboth := (List.mem_filter.mp hw).2
        rw [Bool.and_eq_true] at hboth
        exact hboth.2
      exact (checkpointConforms_iff hw hc).mp (hpoints c (mem_checkpoints.mpr ⟨w, hw, hc⟩))
  · intro ⟨⟨row, hrow, hlisted⟩, hlistable, htwo, hnumbers⟩
    refine ⟨⟨row.block, (mem_emitted_iff hrow).mpr hlisted⟩, ?_, htwo, ?_⟩
    · intro b hb
      obtain ⟨row', hrow', rfl⟩ := hblocks b hb
      exact (blockConforms_iff row').mpr (hlistable row' hrow' ((mem_emitted_iff hrow').mp hb))
    · intro c hc
      obtain ⟨w, hw, hwc⟩ := mem_checkpoints.mp hc
      exact (checkpointConforms_iff hw hwc).mpr (hnumbers w hw)

/-- The `route` and `finishability` objects conform exactly when the specified route, if there is
    one, is in range; the objects of an error always do. -/
theorem outcomeConforms_iff {py : Python} {inputs : GenerationInputs} {mapId : Int}
    {rows : MapRows σ} {validator : Option (Validator σ)} (fixed : Nat → σ → String) :
    (((∀ e ∈ intervalEntries (routeOf py rows mapId inputs.randomSeed validator),
          IntervalConforms e) ∧
        0 ≤ (buildGeneratedMap fixed inputs (baseMapData rows)
          (routeOf py rows mapId inputs.randomSeed validator)).cellsTotal ∧
        ∀ c ∈ corridorsUsedEntries (routeOf py rows mapId inputs.randomSeed validator),
          CorridorUsedConforms c) ∧
      FinishabilityConforms (runFinishabilityGate fixed
        (routeOf py rows mapId inputs.randomSeed validator))) ↔
      ∀ r, RouteFor py rows mapId inputs.randomSeed validator r → RouteInRange r := by
  cases houtcome : routeOf py rows mapId inputs.randomSeed validator with
  | error e =>
    have hnone : ∀ r, ¬ RouteFor py rows mapId inputs.randomSeed validator r := by
      intro r hr
      rw [routeFor_iff, houtcome] at hr
      cases hr
    refine iff_of_true ⟨⟨?_, le_refl 0, ?_⟩, ?_⟩ fun r hr => absurd hr (hnone r)
    · intro e he
      cases he
    · intro c hc
      cases hc
    · simp [FinishabilityConforms, runFinishabilityGate, gateVersion]
  | ok r =>
    have hr : RouteFor py rows mapId inputs.randomSeed validator r := routeFor_iff.mpr houtcome
    constructor
    · intro hconforms r' hr'
      rw [routeFor_iff, houtcome] at hr'
      rw [← Except.ok.inj hr']
      exact (routeConforms_iff fixed hr).mp hconforms
    · intro hrange
      exact (routeConforms_iff fixed hr).mpr (hrange r hr)

/-- The built artifact conforms when the rows can be presented, and only then. -/
theorem conforms_iff {py : Python} {db : Database σ} {inputs : GenerationInputs} {mapId : Int}
    {rows : MapRows σ} {validator : Option (Validator σ)} (fixed : Nat → σ → String)
    (hranked : buildCandidateValidator py db rows (baseMapData rows).blocks = .ok validator)
    (hread : Readable py (corridorsQuery Route.classificationVersion rows.corridors)) :
    Conforms (buildGeneratedMap fixed inputs (baseMapData rows)
        (routeOf py rows mapId inputs.randomSeed validator)) ↔
      Presentable py db inputs mapId rows validator := by
  have hgate : (buildGeneratedMap fixed inputs (baseMapData rows)
      (routeOf py rows mapId inputs.randomSeed validator)).finishability =
      runFinishabilityGate fixed (routeOf py rows mapId inputs.randomSeed validator) :=
    gateAfterStrip_stripIfAsked _ _ _ _
  unfold Conforms
  rw [mapConforms_iff, hgate]
  constructor
  · intro ⟨⟨hsome, hlistable, htwo, hnumbers⟩, hrest⟩
    exact ⟨hranked, hread, htwo, hnumbers, hsome, hlistable,
      (outcomeConforms_iff fixed).mp hrest⟩
  · intro h
    exact ⟨⟨h.someBlock, h.blocks, h.waypoints, h.numbers⟩,
      (outcomeConforms_iff fixed).mpr h.route⟩

/-- The gate tells a rejection. -/
theorem gate_rejected {py : Python} {rows : MapRows σ} {mapId seed : Int}
    {validator : Option (Validator σ)} (fixed : Nat → σ → String)
    (h : Rejected py rows mapId seed validator) :
    (runFinishabilityGate fixed (routeOf py rows mapId seed validator)).routeVerified = false ∧
      (runFinishabilityGate fixed (routeOf py rows mapId seed validator)).rejectReason ≠ none := by
  cases houtcome : routeOf py rows mapId seed validator with
  | error e => exact ⟨rfl, Option.some_ne_none _⟩
  | ok r =>
    have hfloor : r.aiConfidence < aiConfidenceFloor := h r (routeFor_iff.mpr houtcome)
    simp only [runFinishabilityGate, if_pos hfloor]
    exact ⟨trivial, Option.some_ne_none _⟩

/-- `generate_from_base` returns an artifact that the schema accepts, with a reason when it is
    rejected, exactly when the rows can be presented. -/
theorem returnsArtifact_iff (py : Python) (fixed : Nat → σ → String)
    (message : GeneratedMap σ → String) (db : Database σ) (inputs : GenerationInputs)
    {mapId : Int} {rows : MapRows σ} (hid : inputs.baseMapId = some mapId)
    (hrows : db.maps mapId = some rows) :
    ReturnsArtifact py fixed message db inputs mapId rows ↔
      ∃ validator, Presentable py db inputs mapId rows validator := by
  constructor
  · intro ⟨g, hg, _, _⟩
    obtain ⟨mapId', rows', validator, hbuilt⟩ := generateMap_eq_ok.mp hg
    obtain rfl : mapId = mapId' := Option.some.inj (hid.symm.trans hbuilt.asked)
    obtain rfl : rows = rows' := Option.some.inj (hrows.symm.trans hbuilt.found)
    have hconforms := hbuilt.conforms
    rw [hbuilt.built] at hconforms
    exact ⟨validator, (conforms_iff fixed hbuilt.ranked hbuilt.readable).mp hconforms⟩
  · intro ⟨validator, h⟩
    have hconforms := (conforms_iff fixed h.ranked h.readable).mpr h
    refine ⟨_, generateMap_eq_ok.mpr ⟨mapId, rows, validator, hid, hrows, h.ranked, h.readable, rfl,
      hconforms⟩, validateGeneratedMap_eq_none.mpr hconforms, ?_⟩
    intro validator' hranked hrejected
    obtain rfl : validator = validator' := Except.ok.inj (h.ranked.symm.trans hranked)
    have hgate : (buildGeneratedMap fixed inputs (baseMapData rows)
        (routeOf py rows mapId inputs.randomSeed validator)).finishability =
        runFinishabilityGate fixed (routeOf py rows mapId inputs.randomSeed validator) :=
      gateAfterStrip_stripIfAsked _ _ _ _
    rw [hgate]
    exact gate_rejected fixed hrejected

end Condition

/-! ## A goal that is placed freely -/

/-- `format(x, ".3f")` for so many decimals, of a number that is not negative. -/
def fixedRat (decimals : Nat) (x : ℚ) : String :=
  let n := (Score.round (x * 10 ^ decimals)).toNat
  let fraction := toString (n % 10 ^ decimals)
  toString (n / 10 ^ decimals) ++ "." ++
    String.ofList (List.replicate (decimals - fraction.length) '0') ++ fraction

/-- What `jsonschema` says when the list of checkpoints is too short. -/
def tooShort (_ : GeneratedMap ℚ) : String :=
  "map.checkpoints: [\x7b'waypoint_index': 0, 'waypoint_order': 0, 'tag': 'Spawn', 'x': 10, " ++
    "'y': 9, 'z': 10\x7d] is too short"

theorem returnsArtifact_climb : climbInputs.baseMapId = some 1 ∧
    (climbDatabase []).maps 1 = some climbRows ∧
    (ReturnsArtifact climbPython fixedRat tooShort (climbDatabase []) climbInputs 1 climbRows ↔
      ∃ validator, Presentable climbPython (climbDatabase []) climbInputs 1 climbRows validator) :=
  ⟨rfl, rfl, returnsArtifact_iff climbPython fixedRat tooShort (climbDatabase []) climbInputs rfl
    rfl⟩

/-- A road from a spawn on the grid to a free checkpoint and a free goal. -/
def freeGoalRows : MapRows ℚ where
  blockPlacements := [roadRow 0 10 9]
  waypoints := [
    { waypointIndex := 0, waypointOrder := 0, tag := "Spawn", x := some 10, y := some 9,
      z := some 10, absX := none, absY := none, absZ := none },
    { waypointIndex := 1, waypointOrder := 1, tag := "LinkedCheckpoint", x := none, y := none,
      z := none, absX := some 656, absY := some 8, absZ := some 336 },
    { waypointIndex := 2, waypointOrder := 0, tag := "Goal", x := none, y := none, z := none,
      absX := some 976, absY := some 8, absZ := some 336 }]
  corridors := []
  ids_nodup := by decide

def freeGoalDatabase : Database ℚ where
  maps mapId := if mapId = 1 then some freeGoalRows else none
  blockGeometry := []

/-- No corridor is stored, so assembly rejects the map; the schema wants two checkpoints on the grid
    and the rejection is raised instead of returned. -/
theorem freeGoal_raises :
    generateMap climbPython fixedRat tooShort freeGoalDatabase { baseMapId := some 1 } =
        .error (.runtimeError ("generated artifact failed schema validation: map.checkpoints: " ++
          "[\x7b'waypoint_index': 0, 'waypoint_order': 0, 'tag': 'Spawn', 'x': 10, " ++
          "'y': 9, 'z': 10\x7d] is too short")) ∧
      ¬ ReturnsArtifact climbPython fixedRat tooShort freeGoalDatabase { baseMapId := some 1 } 1
        freeGoalRows := by
  have hrun : generateMap climbPython fixedRat tooShort freeGoalDatabase { baseMapId := some 1 } =
      .error (.runtimeError ("generated artifact failed schema validation: map.checkpoints: " ++
        "[\x7b'waypoint_index': 0, 'waypoint_order': 0, 'tag': 'Spawn', 'x': 10, " ++
        "'y': 9, 'z': 10\x7d] is too short")) := by decide +kernel
  refine ⟨hrun, fun ⟨g, hg, _⟩ => ?_⟩
  rw [hrun] at hg
  cases hg

end TraxMania.Generation.Generator
