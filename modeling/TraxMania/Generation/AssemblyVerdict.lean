import TraxMania.Generation.RouteAssembly

/-
  What the assembly pass returns, for every input: which error stands first, and which corridor
  an assembled route carries in each interval.
-/

namespace TraxMania.Generation.Route

open Lib Lib.SortBy Lib.Enumerate

variable {σ : Type}

/-! ## Consecutive anchors -/

theorem getElem?_zip_tail {α : Type*} {xs : List α} {i : Nat} {a b : α} :
    (xs.zip xs.tail)[i]? = some (a, b) ↔ xs[i]? = some a ∧ xs[i + 1]? = some b := by
  rw [List.getElem?_zip_eq_some, List.getElem?_tail]

theorem exists_zip_tail {α : Type*} {xs : List α} {i : Nat} (h : i + 1 < xs.length) :
    ∃ a b, (xs.zip xs.tail)[i]? = some (a, b) :=
  ⟨xs[i], xs[i + 1], getElem?_zip_tail.mpr ⟨List.getElem?_eq_getElem _, List.getElem?_eq_getElem h⟩⟩

theorem lt_of_zip_tail {α : Type*} {xs : List α} {i : Nat} {ab : α × α}
    (h : (xs.zip xs.tail)[i]? = some ab) : i + 1 < xs.length := by
  obtain ⟨hlt, -⟩ := List.getElem?_eq_some_iff.mp (getElem?_zip_tail.mp h).2
  exact hlt

/-! ## The choice -/

/-- The scored candidates between two anchors. -/
def candidatesFor (candidates : List (CandidateCorridor σ)) (src dst : Anchor) :
    List (ScoredCorridor σ) :=
  (candidates.filter fun c => decide (c.intervalKey = (src.key, dst.key))).filterMap
    CandidateCorridor.scored?

theorem mem_candidatesFor {candidates : List (CandidateCorridor σ)} {src dst : Anchor}
    {p : ScoredCorridor σ} : p ∈ candidatesFor candidates src dst ↔
      p.corridor ∈ candidates ∧ p.corridor.intervalKey = (src.key, dst.key) := by
  unfold candidatesFor
  rw [List.mem_filterMap]
  constructor
  · rintro ⟨c, hc, hp⟩
    rw [scored?_eq_some.mp hp]
    simpa using hc
  · intro h
    exact ⟨p.corridor, by simpa using h, scored?_eq_some.mpr rfl⟩

variable [Score σ]

/-- The tie-break order: one stable sort by the key that the flag selects. -/
def tieBreakOrder (useValidationTieBreak : Bool) (pool : List (ScoredCorridor σ)) :
    List (ScoredCorridor σ) :=
  if useValidationTieBreak then sortBy (fun p => tieBreakKeyWithValidation p.corridor) pool
  else sortBy (fun p => tieBreakKey p.corridor) pool

/-- The validation-aware key tells apart whatever the plain key tells apart. -/
theorem tieBreakKey_eq_of_withValidation {c d : CandidateCorridor σ}
    (h : tieBreakKeyWithValidation c = tieBreakKeyWithValidation d) :
    tieBreakKey c = tieBreakKey d := by
  simp only [tieBreakKeyWithValidation, EmbeddingLike.apply_eq_iff_eq, Prod.mk.injEq] at h
  obtain ⟨hlearned, -, -, hcombined, hlength, hid⟩ := h
  rw [tieBreakKey, tieBreakKey, hlearned, hcombined, hlength, hid]

theorem corridorId_of_tieBreakKey {c d : CandidateCorridor σ} (h : tieBreakKey c = tieBreakKey d) :
    c.corridorId = d.corridorId := by
  simp only [tieBreakKey, EmbeddingLike.apply_eq_iff_eq, Prod.mk.injEq] at h
  exact h.2.2.2

theorem sortedPool_eq (useValidationTieBreak : Bool) (pool : List (ScoredCorridor σ)) :
    sortedPool useValidationTieBreak pool = tieBreakOrder useValidationTieBreak pool := by
  unfold sortedPool tieBreakOrder
  cases useValidationTieBreak with
  | false => rfl
  | true => exact sortBy_sortBy (fun _ _ h => tieBreakKey_eq_of_withValidation h) pool

/-- The corridor of the interval `i` out of its pool in tie-break order. -/
def pickFrom (digest : String → Nat) (inputs : AssemblyInputs σ) (i : Nat)
    (ordered : List (ScoredCorridor σ)) : Option (ScoredCorridor σ) :=
  ordered[pickWithinTopK digest inputs.randomSeed i ordered.length inputs.topKCandidates]?

/-- The corridor that assembly chooses for the interval `i`. -/
def choice (digest : String → Nat) (inputs : AssemblyInputs σ) (i : Nat) :
    Option (ScoredCorridor σ) :=
  (inputs.anchors.zip inputs.anchors.tail)[i]?.bind fun ends =>
    pickFrom digest inputs i
      (tieBreakOrder inputs.useValidationTieBreak (candidatesFor inputs.candidates ends.1 ends.2))

omit [Score σ] in
theorem pickFrom_eq_none {digest : String → Nat} {inputs : AssemblyInputs σ} {i : Nat}
    {ordered : List (ScoredCorridor σ)} : pickFrom digest inputs i ordered = none ↔ ordered = [] := by
  unfold pickFrom
  rw [List.getElem?_eq_none_iff]
  constructor
  · intro h
    by_contra hne
    have hlt := pickWithinTopK_lt digest inputs.randomSeed i inputs.topKCandidates
      (List.length_pos_iff.mpr hne)
    omega
  · rintro rfl
    exact Nat.zero_le _

/-- Past the last interval nothing is chosen. -/
theorem choice_eq_none_of_ends {digest : String → Nat} {inputs : AssemblyInputs σ} {i : Nat}
    (h : (inputs.anchors.zip inputs.anchors.tail)[i]? = none) : choice digest inputs i = none := by
  unfold choice
  rw [h]
  rfl

theorem tieBreakOrder_perm (useValidationTieBreak : Bool) (pool : List (ScoredCorridor σ)) :
    (tieBreakOrder useValidationTieBreak pool).Perm pool := by
  rw [← sortedPool_eq]
  exact sortedPool_perm useValidationTieBreak pool

omit [Score σ] in
theorem scoredPool_candidatesByInterval (candidates : List (CandidateCorridor σ))
    (src dst : Anchor) :
    scoredPool (candidatesByInterval candidates) src dst = candidatesFor candidates src dst := by
  unfold scoredPool candidatesByInterval candidatesFor
  rw [Dict.getD_get?_foldl_append]
  rfl

/-- One turn of the interval loop, by the sorted pool. -/
theorem assembleInterval_of_pool (digest : String → Nat) (inputs : AssemblyInputs σ)
    (candidates : Dict IntervalKey (List (CandidateCorridor σ))) (i : Nat)
    (ends : Anchor × Anchor) :
    assembleInterval digest inputs candidates i ends =
      match pickFrom digest inputs i
          (sortedPool inputs.useValidationTieBreak (scoredPool candidates ends.1 ends.2)) with
      | none => .error (missingError i ends.1 ends.2)
      | some top => .ok ⟨i, ends.1, ends.2, chosenCorridor top⟩ := by
  have hperm := sortedPool_perm inputs.useValidationTieBreak (scoredPool candidates ends.1 ends.2)
  unfold assembleInterval
  simp only
  split
  · next hnil =>
    rw [hnil] at hperm ⊢
    rw [List.perm_nil.mp hperm, pickFrom_eq_none.mpr rfl]
  · next hne =>
    rw [pickFrom, List.getElem?_eq_getElem]
    rfl

/-- One turn of the interval loop: the choice, or the error when there is none. -/
theorem assembleInterval_eq (digest : String → Nat) (inputs : AssemblyInputs σ) {i : Nat}
    {ends : Anchor × Anchor} (hends : (inputs.anchors.zip inputs.anchors.tail)[i]? = some ends) :
    assembleInterval digest inputs (candidatesByInterval inputs.candidates) i ends =
      match choice digest inputs i with
      | none => .error (missingError i ends.1 ends.2)
      | some top => .ok ⟨i, ends.1, ends.2, chosenCorridor top⟩ := by
  rw [assembleInterval_of_pool, sortedPool_eq, scoredPool_candidatesByInterval, choice, hends]
  rfl

/-! ## The verdict -/

/-- No candidate of the interval `i` has a learned score. -/
def Unscored (inputs : AssemblyInputs σ) (i : Nat) : Prop :=
  ∃ src dst, inputs.anchors[i]? = some src ∧ inputs.anchors[i + 1]? = some dst ∧
    ∀ c ∈ inputs.candidates, c.intervalKey = (src.key, dst.key) → c.learnedCorridorScore = none

/-- The corridor chosen for the interval `i` has no cells. -/
def WithoutCells (digest : String → Nat) (inputs : AssemblyInputs σ) (i : Nat) : Prop :=
  ∃ top, choice digest inputs i = some top ∧ top.corridor.pathCells = []

/-- The intervals `i` and `i + 1` are there and one of them chose a corridor without cells. -/
def EmptyLink (digest : String → Nat) (inputs : AssemblyInputs σ) (i : Nat) : Prop :=
  i + 2 < inputs.anchors.length ∧
    (WithoutCells digest inputs i ∨ WithoutCells digest inputs (i + 1))

/-- The entry of the interval `i`: its anchors and the corridor chosen for it. -/
structure ChosenAt (digest : String → Nat) (inputs : AssemblyInputs σ) (i : Nat)
    (iv : IntervalAssembly σ) : Prop where
  index : iv.index = i
  src : inputs.anchors[i]? = some iv.src
  dst : inputs.anchors[i + 1]? = some iv.dst
  chosen : ∃ top, choice digest inputs i = some top ∧ iv.chosen = chosenCorridor top

/-- One entry for each interval. -/
structure ChosenIntervals (digest : String → Nat) (inputs : AssemblyInputs σ)
    (intervals : List (IntervalAssembly σ)) : Prop where
  count : intervals.length = inputs.anchors.length - 1
  interval : ∀ i iv, intervals[i]? = some iv → ChosenAt digest inputs i iv

/-- The route of the inputs: the chosen corridors and their sum, sum and mean. -/
structure IsRoute (digest : String → Nat) (inputs : AssemblyInputs σ) (r : AssembledRoute σ) :
    Prop where
  mapId : r.mapId = inputs.mapId
  anchors : r.anchors = inputs.anchors
  intervals : ChosenIntervals digest inputs r.intervals
  cellsTotal : r.cellsTotal = (r.intervals.map fun iv => iv.chosen.pathLength).sum
  estimatedTimeMs :
    r.estimatedTimeMs = (r.intervals.map fun iv => expectedTimeMs σ iv.chosen.pathLength).sum
  aiConfidence : r.aiConfidence =
    sumScores (r.intervals.map fun iv => iv.chosen.learnedCorridorScore) /
      ((r.intervals.length : Int) : σ)

/-- The guards before the interval loop are passed. -/
structure Guarded (inputs : AssemblyInputs σ) : Prop where
  anchors : 2 ≤ inputs.anchors.length
  linked : inputs.isLinkedCp = true
  candidates : inputs.candidates ≠ []

/-- What assembly returns, case by case. -/
structure AssemblyVerdict (digest : String → Nat) (inputs : AssemblyInputs σ)
    (result : Except AssemblyError (AssembledRoute σ)) : Prop where
  fewAnchors : inputs.anchors.length < 2 → ∃ detail, result = .error ⟨.emptyCorridors, detail, none⟩
  plainCp : 2 ≤ inputs.anchors.length → inputs.isLinkedCp = false →
    ∃ detail, result = .error ⟨.plainCpNotSupportedV0, detail, none⟩
  noCandidates : 2 ≤ inputs.anchors.length → inputs.isLinkedCp = true → inputs.candidates = [] →
    ∃ detail, result = .error ⟨.emptyCorridors, detail, none⟩
  missingCorridor : Guarded inputs → ∀ i, IsLeast {j | Unscored inputs j} i →
    ∃ detail, result = .error ⟨.missingCorridorInInterval, detail, some i⟩
  invalidSchema : Guarded inputs → (∀ j, ¬ Unscored inputs j) →
    ∀ i, IsLeast {j | EmptyLink digest inputs j} i →
      ∃ detail, result = .error ⟨.invalidSchema, detail, some i⟩
  route : Guarded inputs → (∀ j, ¬ Unscored inputs j) → (∀ j, ¬ EmptyLink digest inputs j) →
    ∃ r, result = .ok r ∧ IsRoute digest inputs r

theorem choice_eq {digest : String → Nat} {inputs : AssemblyInputs σ} {i : Nat}
    {ends : Anchor × Anchor} (hends : (inputs.anchors.zip inputs.anchors.tail)[i]? = some ends) :
    choice digest inputs i = pickFrom digest inputs i
      (tieBreakOrder inputs.useValidationTieBreak
        (candidatesFor inputs.candidates ends.1 ends.2)) := by
  rw [choice, hends, Option.bind_some]

/-- What is chosen is a candidate of the interval. -/
theorem choice_mem {digest : String → Nat} {inputs : AssemblyInputs σ} {i : Nat}
    {ends : Anchor × Anchor} (hends : (inputs.anchors.zip inputs.anchors.tail)[i]? = some ends)
    {top : ScoredCorridor σ} (htop : choice digest inputs i = some top) :
    top.corridor ∈ inputs.candidates ∧ top.corridor.intervalKey = (ends.1.key, ends.2.key) := by
  rw [choice_eq hends] at htop
  have hmem := List.mem_of_getElem? htop
  rw [(tieBreakOrder_perm _ _).mem_iff] at hmem
  exact mem_candidatesFor.mp hmem

theorem choice_eq_none_iff (digest : String → Nat) {inputs : AssemblyInputs σ} {i : Nat}
    {ends : Anchor × Anchor} (hends : (inputs.anchors.zip inputs.anchors.tail)[i]? = some ends) :
    choice digest inputs i = none ↔ Unscored inputs i := by
  have hanchors := getElem?_zip_tail.mp hends
  rw [choice_eq hends, pickFrom_eq_none, List.eq_nil_iff_forall_not_mem]
  constructor
  · intro hnil
    refine ⟨ends.1, ends.2, hanchors.1, hanchors.2, fun c hc hkey => ?_⟩
    by_contra hscore
    obtain ⟨p, hp⟩ := Option.ne_none_iff_exists'.mp fun h => hscore (scored?_eq_none.mp h)
    have hcorridor := scored?_eq_some.mp hp
    apply hnil p
    rw [(tieBreakOrder_perm _ _).mem_iff, mem_candidatesFor, hcorridor]
    exact ⟨hc, hkey⟩
  · rintro ⟨src, dst, hsrc, hdst, hnone⟩ p hp
    rw [(tieBreakOrder_perm _ _).mem_iff, mem_candidatesFor] at hp
    rw [hanchors.1, Option.some_inj] at hsrc
    rw [hanchors.2, Option.some_inj] at hdst
    have hscore := hnone p.corridor hp.1 (by rw [hp.2, hsrc, hdst])
    rw [p.scored] at hscore
    cases hscore

/-! ## The interval loop -/

theorem collect_missing (digest : String → Nat) {inputs : AssemblyInputs σ} {i : Nat}
    (hleast : IsLeast {j | Unscored inputs j} i) :
    ∃ detail, collect (assembleInterval digest inputs (candidatesByInterval inputs.candidates)) 0
      (inputs.anchors.zip inputs.anchors.tail) =
        .error ⟨.missingCorridorInInterval, detail, some i⟩ := by
  obtain ⟨src, dst, hsrc, hdst, hnone⟩ := hleast.1
  have hends := getElem?_zip_tail.mpr ⟨hsrc, hdst⟩
  have hchoice := (choice_eq_none_iff digest hends).mpr hleast.1
  refine ⟨(missingError i src dst).detail, collect_eq_error hends ?_ ?_⟩
  · rw [Nat.zero_add, assembleInterval_eq digest inputs hends, hchoice]
    rfl
  · intro j hj ends hends'
    have hscored : choice digest inputs j ≠ none := by
      intro h
      have hle := hleast.2 ((choice_eq_none_iff digest hends').mp h)
      omega
    obtain ⟨top, htop⟩ := Option.ne_none_iff_exists'.mp hscored
    refine ⟨⟨j, ends.1, ends.2, chosenCorridor top⟩, ?_⟩
    rw [Nat.zero_add, assembleInterval_eq digest inputs hends', htop]

theorem collect_chosen (digest : String → Nat) {inputs : AssemblyInputs σ}
    (hscored : ∀ j, ¬ Unscored inputs j) :
    ∃ intervals, collect (assembleInterval digest inputs (candidatesByInterval inputs.candidates)) 0
      (inputs.anchors.zip inputs.anchors.tail) = .ok intervals ∧
        ChosenIntervals digest inputs intervals := by
  have hstep : ∀ i ends, (inputs.anchors.zip inputs.anchors.tail)[i]? = some ends →
      ∃ top, choice digest inputs i = some top ∧
        assembleInterval digest inputs (candidatesByInterval inputs.candidates) (0 + i) ends =
          .ok ⟨i, ends.1, ends.2, chosenCorridor top⟩ := by
    intro i ends hends
    have hne : choice digest inputs i ≠ none := fun h => hscored i ((choice_eq_none_iff digest hends).mp h)
    obtain ⟨top, htop⟩ := Option.ne_none_iff_exists'.mp hne
    refine ⟨top, htop, ?_⟩
    rw [Nat.zero_add, assembleInterval_eq digest inputs hends, htop]
  obtain ⟨intervals, hintervals⟩ := collect_eq_ok fun i ends hends => by
    obtain ⟨top, -, hok⟩ := hstep i ends hends
    exact ⟨_, hok⟩
  obtain ⟨hlength, hget⟩ := getElem?_of_collect hintervals
  refine ⟨intervals, hintervals, ?_, fun i iv hiv => ?_⟩
  · rw [hlength, List.length_zip, List.length_tail]
    omega
  · obtain ⟨hlt, -⟩ := List.getElem?_eq_some_iff.mp hiv
    obtain ⟨ends, hends⟩ : ∃ ends, (inputs.anchors.zip inputs.anchors.tail)[i]? = some ends :=
      ⟨_, List.getElem?_eq_getElem (by omega)⟩
    obtain ⟨top, htop, hok⟩ := hstep i ends hends
    obtain ⟨iv', hiv', hok'⟩ := hget i ends hends
    rw [hiv', Option.some_inj] at hiv
    rw [hok', Except.ok.injEq] at hok
    have hanchors := getElem?_zip_tail.mp hends
    rw [← hiv, hok]
    exact ⟨rfl, hanchors.1, hanchors.2, top, htop, rfl⟩

/-! ## The continuity loop -/

omit [Score σ] in
/-- Between corridors that share an anchor only missing cells are an error. -/
theorem checkContinuity_of_shared {i : Nat} {link : IntervalAssembly σ × IntervalAssembly σ}
    (hshared : link.1.chosen.dst.key = link.2.chosen.src.key) :
    checkContinuity i link =
      if link.1.chosen.pathCells = [] ∨ link.2.chosen.pathCells = [] then .error (emptyCellsError i)
      else .ok () := by
  obtain ⟨htag, horder⟩ := Prod.mk.inj hshared
  unfold checkContinuity
  cases hlast : link.1.chosen.pathCells.getLast? with
  | none => simp [List.getLast?_eq_none_iff.mp hlast]
  | some endCell =>
    have hthis : link.1.chosen.pathCells ≠ [] := by
      rintro h
      rw [h] at hlast
      cases hlast
    cases hhead : link.2.chosen.pathCells.head? with
    | none => simp [List.head?_eq_none_iff.mp hhead]
    | some startCell =>
      have hnext : link.2.chosen.pathCells ≠ [] := by
        rintro h
        rw [h] at hhead
        cases hhead
      simp [hthis, hnext, htag, horder, hlast, hhead]

/-- The corridors of consecutive intervals share the anchor between them. -/
theorem ChosenIntervals.shared {digest : String → Nat} {inputs : AssemblyInputs σ}
    {intervals : List (IntervalAssembly σ)} (h : ChosenIntervals digest inputs intervals) {i : Nat}
    {link : IntervalAssembly σ × IntervalAssembly σ}
    (hlink : (intervals.zip intervals.tail)[i]? = some link) :
    link.1.chosen.dst.key = link.2.chosen.src.key := by
  obtain ⟨hthis, hnext⟩ := getElem?_zip_tail.mp hlink
  have hthis := h.interval i _ hthis
  have hnext := h.interval (i + 1) _ hnext
  obtain ⟨top, htop, hchosen⟩ := hthis.chosen
  obtain ⟨top', htop', hchosen'⟩ := hnext.chosen
  have hkey := (choice_mem (getElem?_zip_tail.mpr ⟨hthis.src, hthis.dst⟩) htop).2
  have hkey' := (choice_mem (getElem?_zip_tail.mpr ⟨hnext.src, hnext.dst⟩) htop').2
  have hmid : link.1.dst = link.2.src :=
    Option.some.inj (hthis.dst.symm.trans hnext.src)
  calc link.1.chosen.dst.key = top.corridor.dst.key := by rw [hchosen]; rfl
    _ = link.1.dst.key := (Prod.mk.inj hkey).2
    _ = link.2.src.key := by rw [hmid]
    _ = top'.corridor.src.key := (Prod.mk.inj hkey').1.symm
    _ = link.2.chosen.src.key := by rw [hchosen']; rfl

/-- The links of the intervals, and which of them lack cells. -/
theorem ChosenIntervals.emptyLink_iff {digest : String → Nat} {inputs : AssemblyInputs σ}
    {intervals : List (IntervalAssembly σ)} (h : ChosenIntervals digest inputs intervals) {i : Nat}
    {link : IntervalAssembly σ × IntervalAssembly σ}
    (hlink : (intervals.zip intervals.tail)[i]? = some link) :
    EmptyLink digest inputs i ↔
      (link.1.chosen.pathCells = [] ∨ link.2.chosen.pathCells = []) := by
  have hlt := lt_of_zip_tail hlink
  have hcount := h.count
  obtain ⟨hthis, hnext⟩ := getElem?_zip_tail.mp hlink
  have hcells : ∀ j iv, intervals[j]? = some iv →
      (WithoutCells digest inputs j ↔ iv.chosen.pathCells = []) := by
    intro j iv hiv
    obtain ⟨top, htop, hchosen⟩ := (h.interval j iv hiv).chosen
    rw [hchosen, WithoutCells, htop]
    constructor
    · rintro ⟨top', htop', hnil⟩
      rw [Option.some.inj htop']
      exact hnil
    · intro hnil
      exact ⟨top, rfl, hnil⟩
  rw [EmptyLink, hcells i _ hthis, hcells (i + 1) _ hnext]
  constructor
  · exact And.right
  · intro hor
    exact ⟨by omega, hor⟩

theorem collect_emptyLink {digest : String → Nat} {inputs : AssemblyInputs σ}
    {intervals : List (IntervalAssembly σ)} (h : ChosenIntervals digest inputs intervals) {i : Nat}
    (hleast : IsLeast {j | EmptyLink digest inputs j} i) :
    ∃ detail, collect checkContinuity 0 (intervals.zip intervals.tail) =
      .error ⟨.invalidSchema, detail, some i⟩ := by
  have hlt : i + 1 < intervals.length := by
    have hcount := h.count
    have hanchors := hleast.1.1
    omega
  obtain ⟨this, next, hlink⟩ := exists_zip_tail hlt
  refine ⟨(emptyCellsError i).detail, collect_eq_error hlink ?_ ?_⟩
  · rw [Nat.zero_add, checkContinuity_of_shared (h.shared hlink),
      if_pos ((h.emptyLink_iff hlink).mp hleast.1)]
    rfl
  · intro j hj link hlink'
    refine ⟨(), ?_⟩
    rw [Nat.zero_add, checkContinuity_of_shared (h.shared hlink'), if_neg]
    intro hor
    have hle := hleast.2 ((h.emptyLink_iff hlink').mpr hor)
    omega

theorem collect_continuous {digest : String → Nat} {inputs : AssemblyInputs σ}
    {intervals : List (IntervalAssembly σ)} (h : ChosenIntervals digest inputs intervals)
    (hcells : ∀ j, ¬ EmptyLink digest inputs j) :
    ∃ units, collect checkContinuity 0 (intervals.zip intervals.tail) = .ok units := by
  apply collect_eq_ok
  intro i link hlink
  refine ⟨(), ?_⟩
  rw [Nat.zero_add, checkContinuity_of_shared (h.shared hlink), if_neg]
  intro hor
  exact hcells i ((h.emptyLink_iff hlink).mpr hor)

/-! ## The whole pass -/

theorem isRoute_assembledRoute {digest : String → Nat} {inputs : AssemblyInputs σ}
    {intervals : List (IntervalAssembly σ)} (h : ChosenIntervals digest inputs intervals) :
    IsRoute digest inputs (assembledRoute inputs intervals) := by
  refine ⟨rfl, rfl, h, rfl, ?_, rfl⟩
  have htimes : intervals.map (fun iv => iv.chosen.expectedTimeMs) =
      intervals.map fun iv => expectedTimeMs σ iv.chosen.pathLength := by
    apply List.map_congr_left
    intro iv hiv
    obtain ⟨i, hi⟩ := List.mem_iff_getElem?.mp hiv
    obtain ⟨top, -, hchosen⟩ := (h.interval i iv hi).chosen
    rw [hchosen]
    rfl
  exact congrArg List.sum htimes

/-- Past the guards only the two loops are left. -/
theorem assemble_of_guarded (digest : String → Nat) {inputs : AssemblyInputs σ}
    (h : Guarded inputs) :
    assembleRouteFromInputs digest inputs =
      (collect (assembleInterval digest inputs (candidatesByInterval inputs.candidates)) 0
        (inputs.anchors.zip inputs.anchors.tail)).bind fun intervals =>
          (collect checkContinuity 0 (intervals.zip intervals.tail)).bind fun _ =>
            .ok (assembledRoute inputs intervals) := by
  have hlen : ¬ inputs.anchors.length < 2 := Nat.not_lt.mpr h.anchors
  have hlinked : ¬ (!inputs.isLinkedCp) = true := by simp [h.linked]
  have hsome : ¬ inputs.candidates.isEmpty = true := by simpa using h.candidates
  rw [assembleRouteFromInputs, if_neg hlen, if_neg hlinked, if_neg hsome]
  rfl

theorem assemblyVerdict (digest : String → Nat) (inputs : AssemblyInputs σ) :
    AssemblyVerdict digest inputs (assembleRouteFromInputs digest inputs) where
  fewAnchors h := by
    rw [assembleRouteFromInputs, if_pos h]
    exact ⟨_, rfl⟩
  plainCp h hplain := by
    rw [assembleRouteFromInputs, if_neg (Nat.not_lt.mpr h), if_pos (by simp [hplain])]
    exact ⟨_, rfl⟩
  noCandidates h hlinked hnil := by
    rw [assembleRouteFromInputs, if_neg (Nat.not_lt.mpr h), if_neg (by simp [hlinked]),
      if_pos (by simp [hnil])]
    exact ⟨_, rfl⟩
  missingCorridor h i hleast := by
    obtain ⟨detail, herror⟩ := collect_missing digest hleast
    rw [assemble_of_guarded digest h, herror]
    exact ⟨detail, rfl⟩
  invalidSchema h hscored i hleast := by
    obtain ⟨intervals, hok, hchosen⟩ := collect_chosen digest hscored
    obtain ⟨detail, herror⟩ := collect_emptyLink hchosen hleast
    rw [assemble_of_guarded digest h, hok, Except.bind, herror]
    exact ⟨detail, rfl⟩
  route h hscored hcells := by
    obtain ⟨intervals, hok, hchosen⟩ := collect_chosen digest hscored
    obtain ⟨units, hunits⟩ := collect_continuous hchosen hcells
    rw [assemble_of_guarded digest h, hok, Except.bind, hunits]
    exact ⟨_, rfl, isRoute_assembledRoute hchosen⟩

theorem exists_isLeast {P : Nat → Prop} (h : ∃ i, P i) : ∃ i, IsLeast {j | P j} i := by
  classical
  exact ⟨Nat.find h, Nat.find_spec h, fun j hj => Nat.find_min' h hj⟩

/-- The conditions under which there is a route. -/
structure Routed (digest : String → Nat) (inputs : AssemblyInputs σ) : Prop where
  guarded : Guarded inputs
  scored : ∀ j, ¬ Unscored inputs j
  cells : ∀ j, ¬ EmptyLink digest inputs j

/-- A route, or an error that is not `chain_broken`. -/
theorem route_or_error (digest : String → Nat) (inputs : AssemblyInputs σ) :
    (Routed digest inputs ∧
        ∃ r, assembleRouteFromInputs digest inputs = .ok r ∧ IsRoute digest inputs r) ∨
      ¬ Routed digest inputs ∧
        ∃ e, assembleRouteFromInputs digest inputs = .error e ∧ e.reason ≠ .chainBroken := by
  have hverdict := assemblyVerdict digest inputs
  have herror : ∀ {reason : RejectReason} {index : Option Nat}, reason ≠ .chainBroken →
      (∃ detail, assembleRouteFromInputs digest inputs = .error ⟨reason, detail, index⟩) →
        ∃ e, assembleRouteFromInputs digest inputs = .error e ∧ e.reason ≠ .chainBroken := by
    rintro reason index hne ⟨detail, hresult⟩
    exact ⟨_, hresult, hne⟩
  by_cases hlen : inputs.anchors.length < 2
  · exact Or.inr ⟨fun h => Nat.not_lt.mpr h.guarded.anchors hlen,
      herror (by decide) (hverdict.fewAnchors hlen)⟩
  · rw [Nat.not_lt] at hlen
    cases hlinked : inputs.isLinkedCp with
    | false =>
      refine Or.inr ⟨fun h => ?_, herror (by decide) (hverdict.plainCp hlen hlinked)⟩
      rw [h.guarded.linked] at hlinked
      cases hlinked
    | true =>
      by_cases hnil : inputs.candidates = []
      · exact Or.inr ⟨fun h => h.guarded.candidates hnil,
          herror (by decide) (hverdict.noCandidates hlen hlinked hnil)⟩
      · have hguarded : Guarded inputs := ⟨hlen, hlinked, hnil⟩
        by_cases hscored : ∃ j, Unscored inputs j
        · obtain ⟨i, hi⟩ := exists_isLeast hscored
          exact Or.inr ⟨fun h => h.scored i hi.1,
            herror (by decide) (hverdict.missingCorridor hguarded i hi)⟩
        · have hscored : ∀ j, ¬ Unscored inputs j := not_exists.mp hscored
          by_cases hcells : ∃ j, EmptyLink digest inputs j
          · obtain ⟨i, hi⟩ := exists_isLeast hcells
            exact Or.inr ⟨fun h => h.cells i hi.1,
              herror (by decide) (hverdict.invalidSchema hguarded hscored i hi)⟩
          · have hcells : ∀ j, ¬ EmptyLink digest inputs j := not_exists.mp hcells
            exact Or.inl ⟨⟨hguarded, hscored, hcells⟩, hverdict.route hguarded hscored hcells⟩

/-- The shared-anchor test always holds, so the distance test is never made. -/
theorem reason_ne_chainBroken {digest : String → Nat} {inputs : AssemblyInputs σ}
    {e : AssemblyError} (h : assembleRouteFromInputs digest inputs = .error e) :
    e.reason ≠ .chainBroken := by
  rcases route_or_error digest inputs with ⟨-, r, hr, -⟩ | ⟨-, e', he', hne⟩
  · rw [h] at hr
    cases hr
  · rw [h] at he'
    rw [Except.error.inj he']
    exact hne

theorem routed_of_ok {digest : String → Nat} {inputs : AssemblyInputs σ} {r : AssembledRoute σ}
    (h : assembleRouteFromInputs digest inputs = .ok r) :
    Routed digest inputs ∧ IsRoute digest inputs r := by
  rcases route_or_error digest inputs with ⟨hrouted, r', hr', hroute⟩ | ⟨-, e, he, -⟩
  · rw [h] at hr'
    obtain rfl := Except.ok.inj hr'
    exact ⟨hrouted, hroute⟩
  · rw [h] at he
    cases he

/-! ## The order of the candidates -/

omit [Score σ] in
theorem candidatesFor_perm {candidates candidates' : List (CandidateCorridor σ)}
    (hperm : candidates'.Perm candidates) (src dst : Anchor) :
    (candidatesFor candidates' src dst).Perm (candidatesFor candidates src dst) :=
  (hperm.filter _).filterMap _

/-- Distinct corridor ids leave the tie-break no ties. -/
theorem tieBreakOrder_eq_of_perm {candidates candidates' : List (CandidateCorridor σ)}
    (hperm : candidates'.Perm candidates) (hids : (candidates.map (·.corridorId)).Nodup)
    (useValidationTieBreak : Bool) (src dst : Anchor) :
    tieBreakOrder useValidationTieBreak (candidatesFor candidates' src dst) =
      tieBreakOrder useValidationTieBreak (candidatesFor candidates src dst) := by
  have hpool := candidatesFor_perm hperm src dst
  have hinj : ∀ p ∈ candidatesFor candidates' src dst, ∀ q ∈ candidatesFor candidates' src dst,
      tieBreakKey p.corridor = tieBreakKey q.corridor → p = q := by
    intro p hp q hq hkey
    have hp' := (mem_candidatesFor.mp (hpool.mem_iff.mp hp)).1
    have hq' := (mem_candidatesFor.mp (hpool.mem_iff.mp hq)).1
    exact ScoredCorridor.ext
      (List.inj_on_of_nodup_map hids hp' hq' (corridorId_of_tieBreakKey hkey))
  unfold tieBreakOrder
  cases useValidationTieBreak with
  | false => exact sortBy_eq_of_perm hpool hinj
  | true =>
    exact sortBy_eq_of_perm hpool fun p hp q hq hkey =>
      hinj p hp q hq (tieBreakKey_eq_of_withValidation hkey)

theorem assemble_eq_of_perm (digest : String → Nat) {inputs : AssemblyInputs σ}
    {candidates' : List (CandidateCorridor σ)} (hperm : candidates'.Perm inputs.candidates)
    (hids : (inputs.candidates.map (·.corridorId)).Nodup) :
    assembleRouteFromInputs digest { inputs with candidates := candidates' } =
      assembleRouteFromInputs digest inputs := by
  have hstep : ∀ i ends,
      assembleInterval digest { inputs with candidates := candidates' }
          (candidatesByInterval candidates') i ends =
        assembleInterval digest inputs (candidatesByInterval inputs.candidates) i ends := by
    intro i ends
    rw [assembleInterval_of_pool, assembleInterval_of_pool, sortedPool_eq, sortedPool_eq,
      scoredPool_candidatesByInterval, scoredPool_candidatesByInterval,
      tieBreakOrder_eq_of_perm hperm hids]
    rfl
  unfold assembleRouteFromInputs
  simp only [hperm.isEmpty_eq, collect_congr fun i ends _ => hstep i ends]
  rfl

/-! ## The verdict and the choice -/

/-- Verdict and choice are specified for all inputs; `chain_broken` is never returned, and the
    order in which the candidates come does not matter when their ids are distinct. -/
theorem assembly_specified (digest : String → Nat) (inputs : AssemblyInputs σ) :
    AssemblyVerdict digest inputs (assembleRouteFromInputs digest inputs) ∧
      (∀ e, assembleRouteFromInputs digest inputs = .error e → e.reason ≠ .chainBroken) ∧
      ∀ candidates' : List (CandidateCorridor σ), candidates'.Perm inputs.candidates →
        (inputs.candidates.map (·.corridorId)).Nodup →
          assembleRouteFromInputs digest { inputs with candidates := candidates' } =
            assembleRouteFromInputs digest inputs :=
  ⟨assemblyVerdict digest inputs, fun _ h => reason_ne_chainBroken h,
    fun _ hperm hids => assemble_eq_of_perm digest hperm hids⟩

/-- A scored corridor between two anchors, one cell long. -/
def oneCell (id : Int) (src dst : Anchor) (learned : ℚ) : CandidateCorridor ℚ where
  src := src
  dst := dst
  learnedCorridorScore := some learned
  corridorId := id
  mapId := 1
  pathCells := [⟨0, 9, 0⟩]
  pathLength := 1
  containsVirtualEdge := false
  corridorConfidence := none

/-- Spawn, one linked checkpoint and goal; two corridors lead to the checkpoint. -/
def oneGateInputs : AssemblyInputs ℚ where
  mapId := 1
  isLinkedCp := true
  anchors := [⟨"Spawn", 0, none⟩, ⟨"LinkedCheckpoint", 1, none⟩, ⟨"Goal", 0, none⟩]
  candidates :=
    [oneCell 1 ⟨"Spawn", 0, none⟩ ⟨"LinkedCheckpoint", 1, none⟩ (1 / 2),
      oneCell 2 ⟨"Spawn", 0, none⟩ ⟨"LinkedCheckpoint", 1, none⟩ (3 / 4),
      oneCell 3 ⟨"LinkedCheckpoint", 1, none⟩ ⟨"Goal", 0, none⟩ (1 / 4)]

example : (assembleRouteFromInputs (fun _ => 0) oneGateInputs).map
    (fun r => (r.intervals.map (·.chosen.corridorId), r.estimatedTimeMs, r.aiConfidence)) =
      .ok ([2, 3], 2134, 1 / 2) := by decide +kernel

theorem assembly_specified_oneGate :
    assembleRouteFromInputs (fun _ => 0)
        { oneGateInputs with candidates := oneGateInputs.candidates.reverse } =
      assembleRouteFromInputs (fun _ => 0) oneGateInputs :=
  (assembly_specified (fun _ => 0) oneGateInputs).2.2 _ (List.reverse_perm _) (by decide)

end TraxMania.Generation.Route
