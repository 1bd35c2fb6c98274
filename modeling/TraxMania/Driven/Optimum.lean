import TraxMania.Driven.DrivenPath
import Mathlib.Data.Set.Card

/-
  What a driven path is: a cheapest sequence of the states that its samples have, its maximal runs,
  and the number of its jumps between placements that do not touch.
-/

namespace TraxMania.Driven

open TraxMania.Grid Lib Lib.Viterbi

/-- `path` has one candidate state for each sample. -/
def PicksCandidates (steps : List (List State)) (path : List State) : Prop :=
  List.Forall₂ (fun states s => s ∈ states) steps path

/-- The cost of a sequence of states: what each state costs and what each move costs. -/
def pathCost (adjacent : Adjacency) (steps : List (List State)) (path : List State) : ℚ :=
  chainCost (transition adjacent) (layers steps) path

/-- At sample `i` and at the next one the path is on two placements that do not touch. -/
def TeleportAt (adjacent : Adjacency) (path : List State) (i : Nat) : Prop :=
  ∃ a b, path[i]? = some (.placement a) ∧ path[i + 1]? = some (.placement b) ∧ a ≠ b ∧
    adjacent.has a b = false

/-- The samples of a visit. -/
def Visit.run (v : Visit) : Run State := ⟨v.state, v.firstSample, v.lastSample⟩

theorem isChain_layers {steps : List (List State)} {path : List State} :
    Viterbi.IsChain (layers steps) path ↔ PicksCandidates steps path := by
  unfold Viterbi.IsChain layers PicksCandidates
  rw [List.forall₂_map_left_iff]

/-! ## Candidates are placements -/

section Candidates

variable {σ : Type} [Metres σ] {math : Math σ} {catalogue : BlockCatalogue}
variable {placements : List (Placement σ)} {freeAnchor : FreeAnchor} {freePadM : σ}

/-- `id` is the index of one of the placements. -/
def IsIndex (placements : List (Placement σ)) (id : Nat) : Prop :=
  ∃ p ∈ placements, p.index = id

omit [Metres σ] in
/-- Another owner leaves only owners that were there, and itself. -/
theorem forall_addOwner {cells : Dict Cell (List Nat)} {P : Nat → Prop} {cell : Cell} {owner : Nat}
    (h : ∀ kv ∈ cells.items, ∀ id ∈ kv.2, P id) (howner : P owner) :
    ∀ kv ∈ (addOwner cells cell owner).items, ∀ id ∈ kv.2, P id := by
  apply Dict.forall_upsert (P := fun _ ids => ∀ id ∈ ids, P id) h
  intro old hold
  have hbucket : ∀ id ∈ old.getD [], P id := by
    cases old with
    | none => exact fun id hid => absurd hid List.not_mem_nil
    | some ids => exact hold ids rfl
  show ∀ id ∈ if (old.getD []).length < maxPlacementsPerCell then old.getD [] ++ [owner]
    else old.getD [], P id
  split
  · intro id hid
    rcases List.mem_append.mp hid with hid | hid
    · exact hbucket id hid
    · exact List.mem_singleton.mp hid ▸ howner
  · exact hbucket

omit [Metres σ] in
theorem forall_addOwners {cells : Dict Cell (List Nat)} {P : Nat → Prop} {owner : Nat}
    (footprint : List Cell) (h : ∀ kv ∈ cells.items, ∀ id ∈ kv.2, P id) (howner : P owner) :
    ∀ kv ∈ (footprint.foldl (fun cells cell => addOwner cells cell owner) cells).items,
      ∀ id ∈ kv.2, P id := by
  induction footprint generalizing cells with
  | nil => exact h
  | cons cell footprint ih => exact ih (forall_addOwner h howner)

/-- The index owns its cells by placements only. -/
theorem forall_cells_init :
    ∀ kv ∈ (CandidateIndex.init math catalogue freeAnchor freePadM placements).cells.items,
      ∀ id ∈ kv.2, IsIndex placements id := by
  have hrows : ∀ rows : List (Placement σ), (∀ p ∈ rows, p ∈ placements) →
      ∀ cells : Dict Cell (List Nat), (∀ kv ∈ cells.items, ∀ id ∈ kv.2, IsIndex placements id) →
      ∀ kv ∈ (rows.foldl (fun cells p => (gridFootprintCells catalogue p).foldl
        (fun cells cell => addOwner cells cell p.index) cells) cells).items,
        ∀ id ∈ kv.2, IsIndex placements id := by
    intro rows
    induction rows with
    | nil => exact fun _ _ h => h
    | cons p rows ih =>
      intro hmem cells h
      have hindex : IsIndex placements p.index := ⟨p, hmem p List.mem_cons_self, rfl⟩
      exact ih (fun q hq => hmem q (List.mem_cons_of_mem _ hq)) _ (forall_addOwners _ h hindex)
  apply hrows _ (fun p hp => (List.mem_filter.mp hp).1)
  exact fun kv hkv => absurd hkv List.not_mem_nil

/-- The volume of a free placement carries the placement's index. -/
theorem freePlacementBox_index {p : Placement σ} {b : OrientedBox σ}
    (h : freePlacementBox math catalogue freeAnchor freePadM p = some b) :
    b.placementIndex = p.index := by
  unfold freePlacementBox at h
  split at h
  · obtain rfl := Option.some.inj h
    rfl
  · cases h

/-- What a position could be on are placements. -/
theorem isIndex_of_mem_sweptCandidates {a : Point σ} {b : Option (Point σ)} {id : Nat}
    (h : id ∈ sweptCandidates math
      (CandidateIndex.init math catalogue freeAnchor freePadM placements) a b) :
    IsIndex placements id := by
  obtain ⟨p, -, hp⟩ := List.mem_flatMap.mp (mem_of_mem_firsts h)
  rcases List.mem_append.mp hp with hp | hp
  · obtain ⟨dy, -, hdy⟩ := List.mem_flatMap.mp hp
    unfold CandidateIndex.gridCandidates at hdy
    cases hget : (CandidateIndex.init math catalogue freeAnchor freePadM placements).cells.get?
        (toCell p + ⟨0, dy, 0⟩) with
    | none =>
      rw [hget] at hdy
      cases hdy
    | some ids =>
      rw [hget] at hdy
      exact forall_cells_init _ (Dict.mem_items_of_get? hget) id hdy
  · obtain ⟨box, hbox, rfl⟩ := List.mem_map.mp hp
    obtain ⟨q, hq, hqbox⟩ := List.mem_filterMap.mp (List.mem_filter.mp hbox).1
    exact ⟨q, (List.mem_filter.mp hq).1, (freePlacementBox_index hqbox).symm⟩

/-- A placement among the states of a sample is one of the placements. -/
theorem isIndex_of_mem_statesAt {samples : List (Sample σ)} {i id : Nat}
    (h : State.placement id ∈ statesAt math
      (CandidateIndex.init math catalogue freeAnchor freePadM placements) samples i) :
    IsIndex placements id := by
  unfold statesAt at h
  split at h
  · cases h
  · rcases List.mem_append.mp h with h | h
    · obtain ⟨id', hid', he⟩ := List.mem_map.mp h
      obtain rfl := State.placement.inj he
      exact isIndex_of_mem_sweptCandidates hid'
    · split at h
      · cases List.mem_singleton.mp h
      · cases List.mem_singleton.mp h

omit [Metres σ] in
theorem get?_byId_ne_none {id : Nat} (h : IsIndex placements id) :
    ∃ p, (byId placements).get? id = some p := by
  have hkey : id ∈ (byId placements).keys := Dict.mem_keys_foldl.mpr (Or.inr h)
  obtain ⟨p, hp⟩ := Dict.mem_keys.mp hkey
  exact ⟨p, Dict.get?_eq_some hp⟩

end Candidates

/-! ## The visits are the runs -/

section Visits

variable {σ : Type} [Metres σ] {placements : Dict Nat (Placement σ)} {samples : List (Sample σ)}

/-- A run has a visit when its samples and the placement of its state are there. -/
theorem visitOf_eq_some {run : Run State}
    (hstate : ∀ id, run.state = .placement id → ∃ p, placements.get? id = some p)
    (hfirst : run.first ≤ run.last) (hlast : run.last < samples.length) :
    ∃ v, visitOf placements samples run = some v ∧ v.run = run := by
  obtain ⟨state, first, last⟩ := run
  have hb : samples[last]? = some samples[last] := List.getElem?_eq_getElem hlast
  have hfirst' : first < samples.length := Nat.lt_of_le_of_lt hfirst hlast
  have ha : samples[first]? = some samples[first] := List.getElem?_eq_getElem hfirst'
  cases state with
  | placement id =>
    obtain ⟨p, hp⟩ := hstate id rfl
    simp only [visitOf, hp, ha, hb, Option.map_some, Option.bind_eq_bind, Option.bind_some]
    exact ⟨_, rfl, rfl⟩
  | airborne =>
    simp only [visitOf, ha, hb, Option.bind_eq_bind, Option.bind_some]
    exact ⟨_, rfl, rfl⟩
  | offSurface =>
    simp only [visitOf, ha, hb, Option.bind_eq_bind, Option.bind_some]
    exact ⟨_, rfl, rfl⟩

theorem mapM_visitOf {rs : List (Run State)}
    (h : ∀ r ∈ rs, ∃ v, visitOf placements samples r = some v ∧ v.run = r) :
    ∃ vs, rs.mapM (visitOf placements samples) = some vs ∧ vs.map Visit.run = rs := by
  induction rs with
  | nil => exact ⟨[], rfl, rfl⟩
  | cons r rs ih =>
    obtain ⟨v, hv, hrun⟩ := h r List.mem_cons_self
    obtain ⟨vs, hvs, hruns⟩ := ih fun r' hr' => h r' (List.mem_cons_of_mem _ hr')
    refine ⟨v :: vs, ?_, ?_⟩
    · rw [List.mapM_cons, hv, hvs]
      rfl
    · rw [List.map_cons, hrun, hruns]

end Visits

/-! ## Teleports -/

/-- How often a predicate holds along a list, as a number of indices. -/
theorem countP_eq_card {α : Type} (p : α → Bool) (xs : List α) :
    xs.countP p = ((Finset.range xs.length).filter fun i => (xs[i]?).any p).card := by
  induction xs using List.reverseRecOn with
  | nil => rfl
  | append_singleton xs x ih =>
    have hold : (Finset.range xs.length).filter (fun i => ((xs ++ [x])[i]?).any p) =
        (Finset.range xs.length).filter fun i => (xs[i]?).any p := by
      apply Finset.filter_congr
      intro i hi
      rw [List.getElem?_append_left (Finset.mem_range.mp hi)]
    have hlast : ((xs ++ [x])[xs.length]?).any p = p x := by simp
    rw [List.countP_append, ih, List.length_append, List.length_singleton, Finset.range_add_one,
      Finset.filter_insert, hold, hlast]
    cases hx : p x with
    | true =>
      rw [if_pos rfl, Finset.card_insert_of_notMem (by simp)]
      simp [hx]
    | false =>
      rw [if_neg Bool.false_ne_true]
      simp [hx]

/-- The teleports are the samples after which the path jumps to a placement that does not touch. -/
theorem countTeleports_eq (path : List State) (adjacent : Adjacency) :
    countTeleports path adjacent = {i | TeleportAt adjacent path i}.ncard := by
  have hset : {i | TeleportAt adjacent path i} =
      ↑((Finset.range (path.zip path.tail).length).filter fun i =>
        ((path.zip path.tail)[i]?).any (isTeleport adjacent)) := by
    ext i
    rw [Finset.coe_filter, Set.mem_ofPred_eq, Set.mem_ofPred_eq, Finset.mem_range]
    constructor
    · rintro ⟨a, b, ha, hb, hne, hhas⟩
      have hget : (path.zip path.tail)[i]? = some (.placement a, .placement b) := by
        rw [List.getElem?_zip_eq_some, List.getElem?_tail]
        exact ⟨ha, hb⟩
      refine ⟨(List.getElem?_eq_some_iff.mp hget).1, ?_⟩
      rw [hget, Option.any_some, isTeleport, hhas]
      simpa using hne
    · rintro ⟨-, hany⟩
      obtain ⟨pair, hget, htele⟩ := (Option.any_eq_true _ _).mp hany
      obtain ⟨s, t⟩ := pair
      rw [List.getElem?_zip_eq_some, List.getElem?_tail] at hget
      cases s with
      | placement a =>
        cases t with
        | placement b =>
          simp only [isTeleport, Bool.and_eq_true, decide_eq_true_eq, Bool.not_eq_true',
            ne_eq] at htele
          exact ⟨a, b, hget.1, hget.2, htele.1, htele.2⟩
        | airborne => cases htele
        | offSurface => cases htele
      | airborne => cases htele
      | offSurface => cases htele
  rw [hset, Set.ncard_coe_finset, countTeleports, countP_eq_card]

/-! ## The extraction -/

section Extraction

variable {σ : Type} [Metres σ]

/-- Every sample has a state: the one that is no placement. -/
theorem statesAt_ne_nil {math : Math σ} {index : CandidateIndex σ} {samples : List (Sample σ)}
    {i : Nat} (hi : i < samples.length) : statesAt math index samples i ≠ [] := by
  unfold statesAt
  rw [List.getElem?_eq_getElem hi]
  exact List.append_ne_nil_of_right_ne_nil _ (List.cons_ne_nil _ _)

theorem stepStates_ne_nil {math : Math σ} {index : CandidateIndex σ} {samples : List (Sample σ)} :
    ∀ states ∈ stepStates math index samples, states ≠ [] := by
  intro states hstates
  obtain ⟨i, hi, rfl⟩ := List.mem_map.mp hstates
  exact statesAt_ne_nil (List.mem_range.mp hi)

/-- The states of the step of a sample that a path is at. -/
theorem mem_statesAt {math : Math σ} {index : CandidateIndex σ} {samples : List (Sample σ)}
    {path : List State} (h : PicksCandidates (stepStates math index samples) path) {i : Nat}
    {s : State} (hs : path[i]? = some s) : s ∈ statesAt math index samples i := by
  obtain ⟨hlen, hall⟩ := List.forall₂_iff_get.mp h
  obtain ⟨hi, hget⟩ := List.getElem?_eq_some_iff.mp hs
  have hi' : i < (stepStates math index samples).length := hlen ▸ hi
  have hmem := hall i hi' hi
  simp only [List.get_eq_getElem, stepStates, List.getElem_map, List.getElem_range] at hmem
  exact hget ▸ hmem

/-- What is extracted once the search has found its states and every run its visit. -/
theorem extractDrivenPath_eq {math : Math σ} {samples : List (Sample σ)}
    {placements : List (Placement σ)} {catalogue : BlockCatalogue} {freeAnchor : FreeAnchor}
    {freePadM : σ} {first : Layer State ℚ} {rest : List (Layer State ℚ)} {states : List State}
    {visits : List Visit} (checkpointIndices : List Int)
    (waypointCells : Option (Dict Cell String))
    (hsteps : layers (stepStates math
      (CandidateIndex.init math catalogue freeAnchor freePadM placements) samples) = first :: rest)
    (hsolve : solve (transition (adjacency (footprints catalogue placements))) first rest =
      some states)
    (hvisits : (runs states).mapM (visitOf (byId placements) samples) = some visits) :
    ∃ path, extractDrivenPath math samples placements catalogue checkpointIndices waypointCells
        freeAnchor freePadM = some path ∧
      path.states = states ∧ path.visits = visits ∧
      path.stats.teleports = countTeleports states (adjacency (footprints catalogue placements)) := by
  unfold extractDrivenPath
  simp only [hsteps, hsolve, Option.bind_eq_bind, Option.bind_some, hvisits]
  exact ⟨_, rfl, rfl, rfl, rfl⟩

/-- Extraction returns a path for samples; its states are a cheapest choice of one candidate state
    for each sample, its visits are the maximal runs of these states, and its teleports are the
    samples after which the states jump to a placement that does not touch. -/
theorem extractDrivenPath_optimum (math : Math σ) {samples : List (Sample σ)}
    (placements : List (Placement σ)) (catalogue : BlockCatalogue) (checkpointIndices : List Int)
    (waypointCells : Option (Dict Cell String)) (freeAnchor : FreeAnchor) (freePadM : σ)
    (hsamples : samples ≠ []) :
    let index := CandidateIndex.init math catalogue freeAnchor freePadM placements
    let steps := stepStates math index samples
    let adjacent := adjacency (footprints catalogue placements)
    ∃ path, extractDrivenPath math samples placements catalogue checkpointIndices waypointCells
        freeAnchor freePadM = some path ∧
      path.states.length = samples.length ∧
      PicksCandidates steps path.states ∧
      (∀ other, PicksCandidates steps other →
        pathCost adjacent steps path.states ≤ pathCost adjacent steps other) ∧
      IsRuns path.states (path.visits.map Visit.run) ∧
      path.stats.teleports = {i | TeleportAt adjacent path.states i}.ncard := by
  intro index steps adjacent
  have hlen : steps.length = samples.length := by
    show ((List.range samples.length).map _).length = _
    rw [List.length_map, List.length_range]
  cases hsteps : layers steps with
  | nil =>
    have hnil : steps = [] := List.map_eq_nil_iff.mp hsteps
    rw [hnil] at hlen
    exact absurd (List.length_eq_zero_iff.mp hlen.symm) hsamples
  | cons first rest =>
    have hstates : ∀ layer ∈ first :: rest, layer.states ≠ [] := by
      intro layer hlayer
      rw [← hsteps] at hlayer
      obtain ⟨states, hmem, rfl⟩ := List.mem_map.mp hlayer
      exact stepStates_ne_nil states hmem
    obtain ⟨states, hsolve⟩ := solve_isSome (transition adjacent)
      (hstates first List.mem_cons_self) fun l hl => hstates l (List.mem_cons_of_mem _ hl)
    obtain ⟨hchain, hleast⟩ := solve_optimal hsolve
    rw [← hsteps] at hchain hleast
    have hpicks : PicksCandidates steps states := isChain_layers.mp hchain
    have hcount : states.length = samples.length := (List.Forall₂.length_eq hpicks).symm.trans hlen
    have hruns : IsRuns states (runs states) := isRuns_runs states
    -- every run has its samples, and its placement is one of the candidates of its first sample
    have hvisit : ∀ r ∈ runs states, ∃ v, visitOf (byId placements) samples r = some v ∧
        v.run = r := by
      intro r hr
      obtain ⟨hle, hlt⟩ := hruns.tile.bounds r hr
      refine visitOf_eq_some (fun id hid => ?_) hle (hcount ▸ hlt)
      have hfirst := hruns.equal r hr r.first le_rfl hle
      rw [hid] at hfirst
      exact get?_byId_ne_none (isIndex_of_mem_statesAt (mem_statesAt hpicks hfirst))
    obtain ⟨visits, hvisits, hrun⟩ := mapM_visitOf hvisit
    obtain ⟨path, hpath, rfl, rfl, hteleports⟩ := extractDrivenPath_eq checkpointIndices
      waypointCells hsteps hsolve hvisits
    refine ⟨path, hpath, hcount, hpicks, ?_, ?_, ?_⟩
    · exact fun other hother => hleast other (isChain_layers.mpr hother)
    · rw [hrun]
      exact hruns
    · rw [hteleports]
      exact countTeleports_eq path.states adjacent

end Extraction

/-- Between positions that differ in one coordinate `math.dist` is the difference; without free
    placements no angle is looked at. -/
def straightMath : Math ℚ where
  cos := fun _ => 1
  sin := fun x => x
  dist := fun a b => |a.x - b.x| + |a.y - b.y| + |a.z - b.z|

/-- A block of one cell. -/
def roadCatalogue : BlockCatalogue :=
  Dict.empty.upsert "Road" fun _ =>
    ⟨"Road", "None", [⟨"ground", 0, ⟨1, 1, 1⟩, [⟨⟨0, 0, 0⟩, Dict.empty⟩]⟩]⟩

/-- The block at rows 20, 21 and 25. -/
def roadPlacements : List (Placement ℚ) :=
  [20, 21, 25].zipIdx.map fun (z, i) =>
    ⟨i, "Road", 0, false, some ⟨10, 9, z⟩, 0, none, 0, 0, 0⟩

/-- A drive along the blocks: two samples on the first, one on the second, and a respawn on the
    third. -/
def roadSamples : List (Sample ℚ) :=
  [648, 660, 680, 808].zipIdx.map fun (z, i) => ⟨⟨336, 8, z⟩, 0, 50 * i⟩

theorem extractDrivenPath_optimum_road :
    roadSamples ≠ [] ∧
    ∃ path, extractDrivenPath straightMath roadSamples roadPlacements roadCatalogue [] none .center
        8 = some path ∧
      path.states.length = roadSamples.length ∧
      PicksCandidates (stepStates straightMath
        (CandidateIndex.init straightMath roadCatalogue .center 8 roadPlacements) roadSamples)
        path.states ∧
      (∀ other, PicksCandidates (stepStates straightMath
          (CandidateIndex.init straightMath roadCatalogue .center 8 roadPlacements) roadSamples)
          other →
        pathCost (adjacency (footprints roadCatalogue roadPlacements)) (stepStates straightMath
            (CandidateIndex.init straightMath roadCatalogue .center 8 roadPlacements) roadSamples)
            path.states ≤
          pathCost (adjacency (footprints roadCatalogue roadPlacements)) (stepStates straightMath
            (CandidateIndex.init straightMath roadCatalogue .center 8 roadPlacements) roadSamples)
            other) ∧
      IsRuns path.states (path.visits.map Visit.run) ∧
      path.stats.teleports =
        {i | TeleportAt (adjacency (footprints roadCatalogue roadPlacements)) path.states i}.ncard :=
  ⟨List.cons_ne_nil _ _, extractDrivenPath_optimum straightMath roadPlacements roadCatalogue [] none
    .center 8 (List.cons_ne_nil _ _)⟩

-- the respawn is cheaper as one sample off the surface than as a teleport
example : (extractDrivenPath straightMath roadSamples roadPlacements roadCatalogue [] none .center
    8).map (fun path => path.visits.map Visit.run) =
    some [⟨.placement 0, 0, 1⟩, ⟨.placement 1, 2, 2⟩, ⟨.offSurface, 3, 3⟩] := by
  decide +kernel

end TraxMania.Driven
