import TraxMania.Generation.Generator
import TraxMania.Generation.ValidationTieBreak

/-
  When `validate_artifact_file` assembles the intervals and blocks of the artifact again: the
  generator ranks with the validator, the validation without it.
-/

namespace TraxMania.Generation.Generator

open Route Strip

variable {σ : Type}

/-! ## The inputs of the two runs -/

variable [Score σ]

/-- The candidates that both runs read. -/
def readRows (py : Python) (rows : MapRows σ) : List (Route.CandidateCorridor σ) :=
  candidatesOf py (corridorsQuery Route.classificationVersion rows.corridors)

theorem forget_read (py : Python) (rows : MapRows σ) (mapId seed : Int)
    (validator : Option (Validator σ)) :
    ((assembleArgs rows mapId seed validator).read py).candidates.map Route.CandidateCorridor.forget =
      readRows py rows :=
  map_forget_validated (fun _ hc => validationScore_of_mem_candidatesOf hc) validator _

/-- The validation run reads the inputs of the generation run, less the scores. -/
theorem read_none (py : Python) (rows : MapRows σ) (mapId seed : Int)
    (validator : Option (Validator σ)) :
    (assembleArgs rows mapId seed none).read py =
      ((assembleArgs rows mapId seed validator).read py).unvalidated := by
  unfold AssemblyInputs.unvalidated
  rw [forget_read]
  rfl

/-- The ids of the candidates are primary keys. -/
theorem read_ids_nodup (py : Python) (rows : MapRows σ) (mapId seed : Int)
    (validator : Option (Validator σ)) :
    (((assembleArgs rows mapId seed validator).read py).candidates.map (·.corridorId)).Nodup := by
  have hids : ((readRows py rows).map (·.corridorId)).Nodup :=
    candidatesOf_ids_nodup py _ rows.ids_nodup
  rw [← forget_read py rows mapId seed validator, List.map_map] at hids
  exact hids

/-! ## The intervals of the two runs -/

/-- The interval without the validation score of its corridor. -/
def forgetInterval (iv : IntervalAssembly σ) : IntervalAssembly σ :=
  { iv with chosen := { iv.chosen with validationScore := none } }

/-- With the same choices the intervals differ in the validation scores only. -/
theorem intervals_eq_map_forget {digest : String → Nat} {inputs : AssemblyInputs σ}
    {ivs ivs' : List (IntervalAssembly σ)} (h : ChosenIntervals digest inputs ivs)
    (h' : ChosenIntervals digest inputs.unvalidated ivs')
    (hsame : ∀ i, choice digest inputs i = choice digest inputs.plain i) :
    ivs' = ivs.map forgetInterval := by
  have hcount : ivs.length = inputs.anchors.length - 1 := h.count
  have hcount' : ivs'.length = inputs.anchors.length - 1 := h'.count
  apply List.ext_getElem?
  intro i
  rw [List.getElem?_map]
  cases hiv : ivs[i]? with
  | none =>
    have hlen := List.getElem?_eq_none_iff.mp hiv
    rw [List.getElem?_eq_none (by omega)]
    rfl
  | some iv =>
    obtain ⟨hlt, -⟩ := List.getElem?_eq_some_iff.mp hiv
    obtain ⟨iv', hiv'⟩ : ∃ iv', ivs'[i]? = some iv' := ⟨_, List.getElem?_eq_getElem (by omega)⟩
    have hat := h.interval i iv hiv
    have hat' := h'.interval i iv' hiv'
    obtain ⟨p, hp, hchosen⟩ := hat.chosen
    obtain ⟨q, hq, hchosen'⟩ := hat'.chosen
    rw [choice_unvalidated, ← hsame i, hp, Option.map_some, Option.some_inj] at hq
    have hsrc : iv.src = iv'.src := Option.some.inj (hat.src.symm.trans hat'.src)
    have hdst : iv.dst = iv'.dst := Option.some.inj (hat.dst.symm.trans hat'.dst)
    rw [hiv', Option.map_some, Option.some_inj]
    obtain ⟨index', src', dst', chosen'⟩ := iv'
    rw [forgetInterval, hchosen]
    simp only [IntervalAssembly.mk.injEq]
    exact ⟨hat'.index.trans hat.index.symm, hsrc.symm, hdst.symm,
      hchosen'.trans (by rw [← hq]; rfl)⟩

/-- The entries agree when the same corridors are chosen. -/
theorem entries_eq_iff {digest : String → Nat} {inputs : AssemblyInputs σ}
    (hids : (inputs.candidates.map (·.corridorId)).Nodup) {ivs ivs' : List (IntervalAssembly σ)}
    (h : ChosenIntervals digest inputs ivs) (h' : ChosenIntervals digest inputs.unvalidated ivs') :
    ivs.map intervalEntry = ivs'.map intervalEntry ↔
      ∀ i, choice digest inputs i = choice digest inputs.plain i := by
  have hcount : ivs.length = inputs.anchors.length - 1 := h.count
  have hcount' : ivs'.length = inputs.anchors.length - 1 := h'.count
  constructor
  · intro heq i
    cases hends : (inputs.anchors.zip inputs.anchors.tail)[i]? with
    | none =>
      unfold choice
      show ((inputs.anchors.zip inputs.anchors.tail)[i]?.bind fun ends => _) =
        ((inputs.anchors.zip inputs.anchors.tail)[i]?.bind fun ends => _)
      rw [hends]
      rfl
    | some ends =>
      have hlt := lt_of_zip_tail hends
      obtain ⟨iv, hiv⟩ : ∃ iv, ivs[i]? = some iv := ⟨_, List.getElem?_eq_getElem (by omega)⟩
      obtain ⟨iv', hiv'⟩ : ∃ iv', ivs'[i]? = some iv' := ⟨_, List.getElem?_eq_getElem (by omega)⟩
      have hentry : intervalEntry iv = intervalEntry iv' := by
        have hget := congrArg (fun entries => entries[i]?) heq
        simp only [List.getElem?_map, hiv, hiv', Option.map_some, Option.some_inj] at hget
        exact hget
      obtain ⟨p, hp, hchosen⟩ := (h.interval i iv hiv).chosen
      obtain ⟨q, hq, hchosen'⟩ := (h'.interval i iv' hiv').chosen
      rw [choice_unvalidated] at hq
      obtain ⟨p', hp', rfl⟩ := Option.map_eq_some_iff.mp hq
      have hid : p.corridor.corridorId = p'.corridor.corridorId := by
        have hid := congrArg IntervalEntry.chosenCorridorId hentry
        simp only [intervalEntry, hchosen, hchosen'] at hid
        exact hid
      have hmem := (choice_mem hends hp).1
      have hends' : (inputs.plain.anchors.zip inputs.plain.anchors.tail)[i]? = some ends := hends
      have hmem' : p'.corridor ∈ inputs.candidates := (choice_mem hends' hp').1
      rw [hp, hp', ScoredCorridor.ext (List.inj_on_of_nodup_map hids hmem hmem' hid)]
  · intro hsame
    rw [intervals_eq_map_forget h h' hsame, List.map_map]
    rfl

/-- With the same choices the routes run over the same cells. -/
theorem routePaths_eq {digest : String → Nat} {inputs : AssemblyInputs σ} {r r' : AssembledRoute σ}
    (h : ChosenIntervals digest inputs r.intervals)
    (h' : ChosenIntervals digest inputs.unvalidated r'.intervals)
    (hsame : ∀ i, choice digest inputs i = choice digest inputs.plain i) :
    routePaths r = routePaths r' := by
  unfold routePaths
  rw [intervals_eq_map_forget h h' hsame, List.map_map]
  rfl

/-- Assembly stops at the same guard in both runs, or without cells in both, or every pick is
    overtaken as often as it overtakes. -/
def PicksReproduced (digest : String → Nat) (inputs : AssemblyInputs σ) : Prop :=
  ¬ Guarded inputs ∨ (∃ i, Unscored inputs i) ∨
    ((∃ i, EmptyLink digest inputs i) ∧ ∃ i, EmptyLink digest inputs.plain i) ∨
      ∀ i, PickKept digest inputs i

/-- A route has entries. -/
theorem intervalEntries_ne_nil {digest : String → Nat} {inputs : AssemblyInputs σ}
    {r : AssembledRoute σ} (hrouted : Routed digest inputs) (hr : IsRoute digest inputs r) :
    intervalEntries (.ok r) ≠ [] := by
  intro hnil
  have hlength := congrArg List.length hnil
  rw [intervalEntries, List.length_map, hr.intervals.count, List.length_nil] at hlength
  have hanchors := hrouted.guarded.anchors
  omega

theorem picksReproduced_iff {digest : String → Nat} {inputs : AssemblyInputs σ} :
    PicksReproduced digest inputs ↔
      (¬ Routed digest inputs ∧ ¬ Routed digest inputs.plain) ∨
        ∀ i, PickKept digest inputs i := by
  constructor
  · rintro (hguard | ⟨i, hi⟩ | ⟨⟨i, hi⟩, j, hj⟩ | hpicks)
    · exact Or.inl ⟨fun h => hguard h.guarded, fun h => hguard (guarded_plain.mp h.guarded)⟩
    · exact Or.inl ⟨fun h => h.scored i hi, fun h => h.scored i hi⟩
    · exact Or.inl ⟨fun h => h.cells i hi, fun h => h.cells j hj⟩
    · exact Or.inr hpicks
  · rintro (⟨hnot, hnot'⟩ | hpicks)
    · by_contra hno
      simp only [PicksReproduced, not_or, not_not, not_exists, not_and] at hno
      obtain ⟨hguard, hscored, hlinks, -⟩ := hno
      by_cases hcells : ∃ i, EmptyLink digest inputs i
      · exact hnot' ⟨guarded_plain.mpr hguard, hscored, hlinks hcells⟩
      · exact hnot ⟨hguard, hscored, not_exists.mp hcells⟩
    · exact Or.inr (Or.inr (Or.inr hpicks))

/-- The same choices are routed alike. -/
theorem routed_plain_iff {digest : String → Nat} {inputs : AssemblyInputs σ}
    (hsame : ∀ i, choice digest inputs i = choice digest inputs.plain i) :
    Routed digest inputs ↔ Routed digest inputs.plain := by
  have hlink : ∀ i, EmptyLink digest inputs i ↔ EmptyLink digest inputs.plain i := by
    intro i
    unfold EmptyLink WithoutCells
    rw [hsame i, hsame (i + 1)]
    rfl
  constructor
  · intro h
    exact ⟨guarded_plain.mpr h.guarded, h.scored, fun j hj => h.cells j ((hlink j).mpr hj)⟩
  · intro h
    exact ⟨guarded_plain.mp h.guarded, h.scored, fun j hj => h.cells j ((hlink j).mp hj)⟩

/-- The entries of both runs agree exactly when the picks are reproduced. -/
theorem intervalEntries_agree_iff (digest : String → Nat) {inputs : AssemblyInputs σ}
    (hflag : inputs.useValidationTieBreak = true)
    (hids : (inputs.candidates.map (·.corridorId)).Nodup) :
    intervalEntries (assembleRouteFromInputs digest inputs.unvalidated) =
        intervalEntries (assembleRouteFromInputs digest inputs) ↔
      PicksReproduced digest inputs := by
  have hkept : (∀ i, choice digest inputs i = choice digest inputs.plain i) ↔
      ∀ i, PickKept digest inputs i := forall_congr' (choice_eq_plain_iff digest hflag hids)
  rw [picksReproduced_iff, ← hkept]
  rcases route_or_error digest inputs with ⟨hrouted, r, hr, hroute⟩ | ⟨hnot, e, he, -⟩
  · rcases route_or_error digest inputs.unvalidated with
      ⟨hrouted', r', hr', hroute'⟩ | ⟨hnot', e', he', -⟩
    · have hentries : r.intervals.map intervalEntry = r'.intervals.map intervalEntry ↔ _ :=
        entries_eq_iff hids hroute.intervals hroute'.intervals
      rw [hr, hr', ← hentries, eq_comm]
      constructor
      · exact Or.inr
      · rintro (⟨hnot, -⟩ | heq)
        · exact absurd hrouted hnot
        · exact heq
    · rw [hr, he']
      constructor
      · intro hnil
        exact absurd hnil.symm (intervalEntries_ne_nil hrouted hroute)
      · rintro (⟨hnot, -⟩ | hsame)
        · exact absurd hrouted hnot
        · exact absurd (routed_unvalidated.mpr ((routed_plain_iff hsame).mp hrouted)) hnot'
  · rcases route_or_error digest inputs.unvalidated with
      ⟨hrouted', r', hr', hroute'⟩ | ⟨hnot', e', he', -⟩
    · rw [he, hr']
      constructor
      · intro hnil
        exact absurd hnil (intervalEntries_ne_nil hrouted' hroute')
      · rintro (⟨-, hnot'⟩ | hsame)
        · exact absurd (routed_unvalidated.mp hrouted') hnot'
        · exact absurd ((routed_plain_iff hsame).mpr (routed_unvalidated.mp hrouted')) hnot
    · rw [he, he']
      constructor
      · intro _
        exact Or.inl ⟨hnot, fun h => hnot' (routed_unvalidated.mpr h)⟩
      · intro _
        rfl

/-- The emitted blocks agree when the entries do. -/
theorem emittedBlocks_eq (digest : String → Nat) {inputs : AssemblyInputs σ}
    (hids : (inputs.candidates.map (·.corridorId)).Nodup) (strip : Bool) (base : BaseMapData)
    (hentries : intervalEntries (assembleRouteFromInputs digest inputs.unvalidated) =
      intervalEntries (assembleRouteFromInputs digest inputs)) :
    emittedBlocks base (stripIfAsked strip
        (assembleRouteFromInputs digest inputs.unvalidated) base) =
      emittedBlocks base (stripIfAsked strip (assembleRouteFromInputs digest inputs) base) := by
  cases strip with
  | false => rfl
  | true =>
    rcases route_or_error digest inputs with ⟨hrouted, r, hr, hroute⟩ | ⟨hnot, e, he, -⟩
    · rcases route_or_error digest inputs.unvalidated with
        ⟨hrouted', r', hr', hroute'⟩ | ⟨hnot', e', he', -⟩
      · rw [hr, hr'] at hentries ⊢
        have hsame := (entries_eq_iff hids hroute.intervals hroute'.intervals).mp hentries.symm
        have hanchors : r'.anchors = r.anchors := hroute'.anchors.trans hroute.anchors.symm
        exact strippedBlocks_congr base.blocks defaultPolicy base.anchorCells hanchors
          (routePaths_eq hroute.intervals hroute'.intervals hsame).symm
      · rw [hr, he'] at hentries
        exact absurd hentries.symm (intervalEntries_ne_nil hrouted hroute)
    · rcases route_or_error digest inputs.unvalidated with
        ⟨hrouted', r', hr', hroute'⟩ | ⟨hnot', e', he', -⟩
      · rw [he, hr'] at hentries
        exact absurd hentries (intervalEntries_ne_nil hrouted' hroute')
      · rw [he, he']
        rfl

end TraxMania.Generation.Generator
