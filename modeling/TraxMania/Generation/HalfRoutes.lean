import TraxMania.Generation.AssembleRoute

/-
  When `assemble_route` returns a route from spawn to goal with cells in every interval, or an
  `AssemblyError`: the linked chain of the rows, the readable `path_cells`, and the link check that
  a single interval escapes.
-/

namespace TraxMania.Generation.Route

open Lib Lib.SortBy Lib.Enumerate Lib.Outcome

/-! ## The chain of the rows -/

/-- The rows of one tag that the anchor query returns. -/
def taggedRows (rows : List CheckpointRow) (tag : String) : List CheckpointRow :=
  withTag tag (anchorQuery rows)

theorem mem_taggedRows {rows : List CheckpointRow} {tag : String} (ht : tag ∈ anchorTags)
    {r : CheckpointRow} : r ∈ taggedRows rows tag ↔ r ∈ rows ∧ r.tag = tag := by
  unfold taggedRows withTag anchorQuery
  simp only [List.mem_filter, mem_sortBy, decide_eq_true_eq]
  constructor
  · intro h
    exact ⟨h.1.1, h.2⟩
  · intro h
    exact ⟨⟨h.1, by rw [h.2]; exact ht⟩, h.2⟩

theorem taggedRows_ne_nil {rows : List CheckpointRow} {tag : String} (ht : tag ∈ anchorTags) :
    taggedRows rows tag ≠ [] ↔ ∃ r ∈ rows, r.tag = tag := by
  constructor
  · intro h
    obtain ⟨r, hr⟩ := List.exists_mem_of_ne_nil _ h
    exact ⟨r, (mem_taggedRows ht).mp hr⟩
  · rintro ⟨r, hr⟩
    exact List.ne_nil_of_mem ((mem_taggedRows ht).mpr hr)

/-- There is a row with tag `Spawn`. -/
def HasSpawn (rows : List CheckpointRow) : Prop := ∃ r ∈ rows, r.tag = "Spawn"

/-- The rows of a linked map: linked checkpoints and no plain ones, and a goal. -/
structure LinkedRows (rows : List CheckpointRow) : Prop where
  linkedCps : ∃ r ∈ rows, r.tag = "LinkedCheckpoint"
  noPlainCps : ∀ r ∈ rows, r.tag ≠ "Checkpoint"
  goal : ∃ r ∈ rows, r.tag = "Goal"

/-- The loop's variables after the rows. -/
theorem foldl_add_anchorQuery (rows : List CheckpointRow) :
    (anchorQuery rows).foldl Detected.add Detected.none =
      ⟨(taggedRows rows "Spawn").head?.map CheckpointRow.anchor,
        (taggedRows rows "Goal").head?.map CheckpointRow.anchor,
        fillCps (taggedRows rows "Checkpoint") Dict.empty,
        fillCps (taggedRows rows "LinkedCheckpoint") Dict.empty⟩ := by
  rw [Detected.foldl_add]
  rfl

theorem linked_iff {rows : List CheckpointRow} :
    (detectAndOrderAnchors (anchorQuery rows)).1 = true ↔ LinkedRows rows := by
  have hplain : taggedRows rows "Checkpoint" = [] ↔ ∀ r ∈ rows, r.tag ≠ "Checkpoint" := by
    rw [← not_iff_not]
    push Not
    exact taggedRows_ne_nil (by decide)
  have hlinked : taggedRows rows "LinkedCheckpoint" ≠ [] ↔ _ := taggedRows_ne_nil (by decide)
  have hgoal : taggedRows rows "Goal" ≠ [] ↔ _ := taggedRows_ne_nil (by decide)
  show ((anchorQuery rows).foldl Detected.add Detected.none).linked = true ↔ LinkedRows rows
  rw [foldl_add_anchorQuery, Detected.linked]
  simp only [Bool.and_eq_true, decide_eq_true_eq, ne_eq, items_fillCps_eq_nil, Option.isSome_map,
    List.isSome_head?]
  rw [← ne_eq, ← ne_eq, hlinked, hplain, hgoal]
  constructor
  · rintro ⟨⟨hl, hp⟩, hg⟩
    exact ⟨hl, hp, hg⟩
  · intro h
    exact ⟨⟨h.linkedCps, h.noPlainCps⟩, h.goal⟩

/-- The anchors of a linked map: a spawn when there is one, linked checkpoints, the goal. -/
theorem linked_anchors {rows : List CheckpointRow} (h : LinkedRows rows) :
    ∃ cps goal, (detectAndOrderAnchors (anchorQuery rows)).2 =
        ((taggedRows rows "Spawn").head?.map CheckpointRow.anchor).toList ++ cps ++ [goal] ∧
      cps ≠ [] ∧ (∀ a ∈ cps, a.tag = "LinkedCheckpoint") ∧ goal.tag = "Goal" := by
  have htags : ∀ r ∈ taggedRows rows "LinkedCheckpoint", r.tag = "LinkedCheckpoint" := fun r hr =>
    ((mem_taggedRows (by decide)).mp hr).2
  obtain ⟨goal, hgoal⟩ : ∃ goal, (taggedRows rows "Goal").head? = some goal := by
    rw [← Option.isSome_iff_exists, List.isSome_head?, taggedRows_ne_nil (by decide)]
    exact h.goal
  have hkeys := orderedCps_fillCps htags
  refine ⟨Detected.orderedCps (fillCps (taggedRows rows "LinkedCheckpoint") Dict.empty),
    goal.anchor, ?_, ?_, ?_, ((mem_taggedRows (by decide)).mp (List.mem_of_mem_head? hgoal)).2⟩
  · have hlinked := linked_iff.mpr h
    unfold detectAndOrderAnchors at hlinked ⊢
    simp only at hlinked ⊢
    rw [Detected.ordered, Detected.cpsSource, if_pos hlinked, foldl_add_anchorQuery]
    dsimp only
    rw [hgoal]
    rfl
  · intro hnil
    obtain ⟨r, hr⟩ := List.exists_mem_of_ne_nil _
      ((taggedRows_ne_nil (by decide)).mpr h.linkedCps)
    have hmem := (mem_keys_fillCps _ r.waypointOrder).mpr ⟨r, hr, rfl⟩
    rw [hnil, List.map_nil, eq_comm, List.map_eq_nil_iff] at hkeys
    have hsorted := (mem_sortBy id _ _).mpr hmem
    rw [hkeys] at hsorted
    cases hsorted
  · intro a ha
    have hkey : a.key ∈ (Detected.orderedCps (fillCps (taggedRows rows "LinkedCheckpoint")
        Dict.empty)).map Anchor.key := List.mem_map_of_mem ha
    rw [hkeys] at hkey
    obtain ⟨order, -, heq⟩ := List.mem_map.mp hkey
    exact (congrArg Prod.fst heq).symm

theorem head_spawn (rows : List CheckpointRow) :
    (∃ a, (taggedRows rows "Spawn").head?.map CheckpointRow.anchor = some a ∧ a.tag = "Spawn") ∧
        HasSpawn rows ∨
      (taggedRows rows "Spawn").head?.map CheckpointRow.anchor = none ∧ ¬ HasSpawn rows := by
  cases hhead : (taggedRows rows "Spawn").head? with
  | none =>
    refine Or.inr ⟨rfl, fun hspawn => ?_⟩
    exact (taggedRows_ne_nil (by decide)).mpr hspawn (List.head?_eq_none_iff.mp hhead)
  | some r =>
    have hr := (mem_taggedRows (by decide)).mp (List.mem_of_mem_head? hhead)
    exact Or.inl ⟨⟨r.anchor, rfl, hr.2⟩, r, hr⟩

/-! ## Reading the candidates -/

variable {σ : Type}

/-- No `path_cells` text of the fetched rows raises out of `_parse_cells`. -/
def Readable (py : Python) (rows : List (StoredCorridor σ)) : Prop :=
  ∀ r ∈ rows, ∃ cells, parseCells py r.pathCells = .ok cells

/-- The candidate of a readable row. -/
def readCandidate (py : Python) (r : StoredCorridor σ) : Option (CandidateCorridor σ) :=
  (parseCells py r.pathCells).toOption.map r.candidate

def candidatesOf (py : Python) (rows : List (StoredCorridor σ)) : List (CandidateCorridor σ) :=
  rows.filterMap (readCandidate py)

theorem rowCandidates_of_readable {py : Python} {rows : List (StoredCorridor σ)}
    (h : Readable py rows) : rowCandidates py rows = .ok (candidatesOf py rows) := by
  unfold rowCandidates candidatesOf
  generalize 0 = k
  induction rows generalizing k with
  | nil => rfl
  | cons r rows ih =>
    obtain ⟨cells, hcells⟩ := h r (by simp)
    have hrow : rowCandidate py r = .ok (r.candidate cells) := by
      rw [rowCandidate, hcells, Except.map]
    have hcandidate : readCandidate py r = some (r.candidate cells) := by
      rw [readCandidate, hcells]
      rfl
    rw [collect_cons_ok hrow, ih fun r' hr' => h r' (by simp [hr']),
      List.filterMap_cons_some hcandidate]
    rfl

theorem readable_of_rowCandidates {py : Python} {rows : List (StoredCorridor σ)}
    {candidates : List (CandidateCorridor σ)} (h : rowCandidates py rows = .ok candidates) :
    Readable py rows := by
  intro r hr
  obtain ⟨i, hi⟩ := List.mem_iff_getElem?.mp hr
  obtain ⟨c, -, hc⟩ := (getElem?_of_collect h).2 i r hi
  cases hcells : parseCells py r.pathCells with
  | error e =>
    rw [rowCandidate, hcells] at hc
    cases hc
  | ok cells => exact ⟨cells, rfl⟩

theorem validationScore_of_mem_candidatesOf {py : Python} {rows : List (StoredCorridor σ)}
    {c : CandidateCorridor σ} (h : c ∈ candidatesOf py rows) : c.validationScore = none := by
  obtain ⟨r, -, hr⟩ := List.mem_filterMap.mp h
  obtain ⟨cells, -, rfl⟩ := Option.map_eq_some_iff.mp hr
  rfl

theorem candidatesOf_ids_sublist (py : Python) (rows : List (StoredCorridor σ)) :
    ((candidatesOf py rows).map (·.corridorId)).Sublist (rows.map (·.id)) := by
  induction rows with
  | nil => exact List.Sublist.slnil
  | cons r rows ih =>
    unfold candidatesOf at ih ⊢
    cases hr : readCandidate py r with
    | none =>
      rw [List.filterMap_cons_none hr]
      exact ih.cons _
    | some c =>
      obtain ⟨cells, -, rfl⟩ := Option.map_eq_some_iff.mp hr
      rw [List.filterMap_cons_some hr]
      exact ih.cons_cons _

/-- The ids of the candidates of a version are primary keys. -/
theorem candidatesOf_ids_nodup (py : Python) (version : String) {rows : List (StoredCorridor σ)}
    (hids : (rows.map (·.id)).Nodup) :
    ((candidatesOf py (corridorsQuery version rows)).map (·.corridorId)).Nodup :=
  (candidatesOf_ids_sublist py _).nodup
    ((List.filter_sublist.map (fun r : StoredCorridor σ => r.id)).nodup hids)

/-! ## Half routes -/

variable [Score σ]

/-- The `AssemblyInputs` of readable rows. -/
def AssembleArgs.read (py : Python) (args : AssembleArgs σ) : AssemblyInputs σ :=
  args.inputs (candidatesOf py (corridorsQuery args.version args.corridors))

theorem assembleRoute_of_readable {py : Python} {args : AssembleArgs σ}
    (h : Readable py (corridorsQuery args.version args.corridors)) :
    assembleRoute py args = .ok (assembleRouteFromInputs py.digest (args.read py)) := by
  unfold assembleRoute
  rw [rowCandidates_of_readable h]
  rfl

theorem readable_of_assembleRoute {py : Python} {args : AssembleArgs σ}
    {outcome : Except AssemblyError (AssembledRoute σ)} (h : assembleRoute py args = .ok outcome) :
    Readable py (corridorsQuery args.version args.corridors) := by
  unfold assembleRoute at h
  obtain ⟨candidates, hrows, -⟩ := bind_eq_ok.mp h
  exact readable_of_rowCandidates hrows

/-- A route from a spawn anchor to a goal anchor with cells in every interval. -/
structure WholeRoute (r : AssembledRoute σ) : Prop where
  start : ∃ iv, r.intervals.head? = some iv ∧ iv.src.tag = "Spawn"
  finish : ∃ iv, r.intervals.getLast? = some iv ∧ iv.dst.tag = "Goal"
  cells : ∀ iv ∈ r.intervals, iv.chosen.pathCells ≠ []

/-- A whole route or an `AssemblyError`. -/
def NoHalfRoute (result : Except PyError (Except AssemblyError (AssembledRoute σ))) : Prop :=
  (∃ r, result = .ok (.ok r) ∧ WholeRoute r) ∨ ∃ e, result = .ok (.error e)

/-- With three anchors every interval is in some link. -/
theorem cells_of_noEmptyLink {digest : String → Nat} {inputs : AssemblyInputs σ}
    (hlength : 3 ≤ inputs.anchors.length) (hcells : ∀ j, ¬ EmptyLink digest inputs j) {i : Nat}
    (hi : i + 1 < inputs.anchors.length) : ¬ WithoutCells digest inputs i := by
  intro hempty
  by_cases hnext : i + 2 < inputs.anchors.length
  · exact hcells i ⟨hnext, Or.inl hempty⟩
  · obtain ⟨k, rfl⟩ : ∃ k, i = k + 1 := ⟨i - 1, by omega⟩
    exact hcells k ⟨by omega, Or.inr hempty⟩

/-- What there is at both ends of the chain. -/
theorem wholeRoute_iff {digest : String → Nat} {inputs : AssemblyInputs σ}
    {rows : List CheckpointRow} (hanchors : inputs.anchors =
      (detectAndOrderAnchors (anchorQuery rows)).2) (hlinked : LinkedRows rows)
    (hrouted : Routed digest inputs) {r : AssembledRoute σ} (hr : IsRoute digest inputs r) :
    WholeRoute r ↔ HasSpawn rows := by
  obtain ⟨cps, goal, hchain, hcps, hcpTags, hgoal⟩ := linked_anchors hlinked
  rw [← hanchors] at hchain
  obtain ⟨cp, cps, rfl⟩ := List.exists_cons_of_ne_nil hcps
  have hcount := hr.intervals.count
  have hcp : cp.tag = "LinkedCheckpoint" := hcpTags cp (by simp)
  rcases head_spawn rows with ⟨⟨a, ha, htag⟩, hspawn⟩ | ⟨hnone, hspawn⟩
  · rw [ha] at hchain
    have hchain : inputs.anchors = a :: cp :: (cps ++ [goal]) := by rw [hchain]; simp
    have hlength : inputs.anchors.length = cps.length + 3 := by rw [hchain]; simp
    refine ⟨fun _ => hspawn, fun _ => ⟨?_, ?_, ?_⟩⟩
    · obtain ⟨iv, hiv⟩ : ∃ iv, r.intervals[0]? = some iv :=
        ⟨_, List.getElem?_eq_getElem (by omega)⟩
      have hsrc := (hr.intervals.interval 0 iv hiv).src
      rw [hchain, List.getElem?_cons_zero, Option.some_inj] at hsrc
      exact ⟨iv, by rw [List.head?_eq_getElem?, hiv], by rw [← hsrc]; exact htag⟩
    · obtain ⟨iv, hiv⟩ : ∃ iv, r.intervals[r.intervals.length - 1]? = some iv :=
        ⟨_, List.getElem?_eq_getElem (by omega)⟩
      have hdst := (hr.intervals.interval _ iv hiv).dst
      have hindex : r.intervals.length - 1 + 1 = inputs.anchors.length - 1 := by omega
      rw [hindex, ← List.getLast?_eq_getElem?, hchain] at hdst
      have hlast : (a :: cp :: (cps ++ [goal])).getLast? = some goal := by
        simp [List.getLast?_cons]
      rw [hlast, Option.some_inj] at hdst
      exact ⟨iv, by rw [List.getLast?_eq_getElem?, hiv], by rw [← hdst]; exact hgoal⟩
    · intro iv hiv
      obtain ⟨i, hi⟩ := List.mem_iff_getElem?.mp hiv
      obtain ⟨hlt, -⟩ := List.getElem?_eq_some_iff.mp hi
      obtain ⟨top, htop, hchosen⟩ := (hr.intervals.interval i iv hi).chosen
      rw [hchosen]
      intro hnil
      exact cells_of_noEmptyLink (by omega) hrouted.cells (by omega : i + 1 < _)
        ⟨top, htop, hnil⟩
  · rw [hnone] at hchain
    refine ⟨fun h => ?_, fun h => absurd h hspawn⟩
    obtain ⟨iv, hiv, hstart⟩ := h.start
    rw [List.head?_eq_getElem?] at hiv
    have hsrc := (hr.intervals.interval 0 iv hiv).src
    have hchain : inputs.anchors = cp :: (cps ++ [goal]) := by rw [hchain]; simp
    rw [hchain, List.getElem?_cons_zero, Option.some_inj] at hsrc
    rw [← hsrc, hcp] at hstart
    exact absurd hstart (by decide)

/-- No half route is returned exactly when every fetched `path_cells` can be read and, on a linked
    map without a spawn row, another check stops assembly. -/
theorem noHalfRoute_iff (py : Python) (args : AssembleArgs σ) :
    NoHalfRoute (assembleRoute py args) ↔
      Readable py (corridorsQuery args.version args.corridors) ∧
        (HasSpawn args.checkpoints ∨ ¬ LinkedRows args.checkpoints ∨
          (∃ i, Unscored (args.read py) i) ∨ ∃ i, EmptyLink py.digest (args.read py) i) := by
  constructor
  · intro h
    have hreadable : Readable py (corridorsQuery args.version args.corridors) := by
      rcases h with ⟨r, hr, -⟩ | ⟨e, he⟩
      · exact readable_of_assembleRoute hr
      · exact readable_of_assembleRoute he
    refine ⟨hreadable, ?_⟩
    by_contra hnot
    simp only [not_or, not_exists, not_not] at hnot
    obtain ⟨hspawn, hlinked, hscored, hcells⟩ := hnot
    obtain ⟨cps, goal, hchain, hcps, -⟩ := linked_anchors hlinked
    have hlength : 2 ≤ (args.read py).anchors.length := by
      show 2 ≤ (detectAndOrderAnchors (anchorQuery args.checkpoints)).2.length
      have hpos := List.length_pos_iff.mpr hcps
      rw [hchain, List.length_append, List.length_append, List.length_singleton]
      omega
    have hcandidates : (args.read py).candidates ≠ [] := by
      intro hnil
      obtain ⟨src, dst, hends⟩ := exists_zip_tail (show 0 + 1 < (args.read py).anchors.length by
        omega)
      obtain ⟨hsrc, hdst⟩ := getElem?_zip_tail.mp hends
      refine hscored 0 ⟨src, dst, hsrc, hdst, fun c hc => ?_⟩
      rw [hnil] at hc
      cases hc
    have hrouted : Routed py.digest (args.read py) :=
      ⟨⟨hlength, linked_iff.mpr hlinked, hcandidates⟩, hscored, hcells⟩
    obtain ⟨r, hr, hroute⟩ := (assemblyVerdict py.digest (args.read py)).route
      hrouted.guarded hscored hcells
    rw [assembleRoute_of_readable hreadable, hr] at h
    rcases h with ⟨r', hr', hwhole⟩ | ⟨e, he⟩
    · obtain rfl := Except.ok.inj (Except.ok.inj hr')
      exact hspawn ((wholeRoute_iff rfl hlinked hrouted hroute).mp hwhole)
    · cases he
  · rintro ⟨hreadable, hor⟩
    rw [assembleRoute_of_readable hreadable]
    cases houtcome : assembleRouteFromInputs py.digest (args.read py) with
    | error e => exact Or.inr ⟨e, rfl⟩
    | ok r =>
      obtain ⟨hrouted, hroute⟩ := routed_of_ok houtcome
      have hlinked : LinkedRows args.checkpoints := linked_iff.mp hrouted.guarded.linked
      rcases hor with hspawn | hplain | ⟨i, hi⟩ | ⟨i, hi⟩
      · exact Or.inl ⟨r, rfl, (wholeRoute_iff rfl hlinked hrouted hroute).mpr hspawn⟩
      · exact absurd hlinked hplain
      · exact absurd hi (hrouted.scored i)
      · exact absurd hi (hrouted.cells i)

/-- `json.loads` on an empty list. -/
def emptyListPython : Python where
  loads text := if text = "[]" then .ok (.arr []) else .error .jsonDecodeError
  intOfText _ := none
  digest _ := 0

/-- A linked checkpoint and a goal without a spawn, and a corridor without cells between them. -/
def noSpawnArgs : AssembleArgs ℚ where
  checkpoints := [⟨0, 1, "LinkedCheckpoint", some 4, some 9, some 4⟩,
    ⟨1, 0, "Goal", some 8, some 9, some 4⟩]
  corridors := [⟨7, 1, "LinkedCheckpoint", 1, "Goal", 0, "[]", 5, false, none, some (1 / 2), none,
    "0.1.0"⟩]
  mapId := 1

/-- The route that comes out of them. -/
def loneRoute : AssembledRoute ℚ where
  mapId := 1
  anchors := [⟨"LinkedCheckpoint", 1, some ⟨4, 9, 4⟩⟩, ⟨"Goal", 0, some ⟨8, 9, 4⟩⟩]
  intervals := [{
    index := 0
    src := ⟨"LinkedCheckpoint", 1, some ⟨4, 9, 4⟩⟩
    dst := ⟨"Goal", 0, some ⟨8, 9, 4⟩⟩
    chosen := {
      corridorId := 7
      mapId := 1
      src := ⟨"LinkedCheckpoint", 1, none⟩
      dst := ⟨"Goal", 0, none⟩
      pathCells := []
      pathLength := 5
      containsVirtualEdge := false
      corridorConfidence := none
      learnedCorridorScore := 1 / 2
      expectedTimeMs := 5333
      combinedSequenceScore := none
      validationScore := none } }]
  cellsTotal := 5
  estimatedTimeMs := 5333
  aiConfidence := 1 / 2

/-- A half route: it starts at a checkpoint and its only interval has no cells. -/
theorem noSpawn_halfRoute :
    assembleRoute emptyListPython noSpawnArgs = .ok (.ok loneRoute) ∧
      ¬ NoHalfRoute (assembleRoute emptyListPython noSpawnArgs) := by
  have hroute : assembleRoute emptyListPython noSpawnArgs = .ok (.ok loneRoute) := by
    decide +kernel
  refine ⟨hroute, ?_⟩
  rw [hroute]
  rintro (⟨r, hr, hwhole⟩ | ⟨e, he⟩)
  · obtain rfl := Except.ok.inj (Except.ok.inj hr)
    exact hwhole.cells _ (List.mem_singleton_self _) rfl
  · cases he

end TraxMania.Generation.Route
