import TraxMania.Generation.AssembleRoute

/-
  What the validator changes: nothing but the validation scores of the candidates, and the key by
  which a pool is sorted. The corridor of an interval stays the same exactly when the plain pick
  is overtaken as often as it overtakes.
-/

namespace TraxMania.Generation.Route

open Lib Lib.SortBy

variable {σ : Type}

/-! ## Without the validation scores -/

/-- The candidate without its validation score. -/
def CandidateCorridor.forget (c : CandidateCorridor σ) : CandidateCorridor σ :=
  { c with validationScore := none }

def ScoredCorridor.forget (p : ScoredCorridor σ) : ScoredCorridor σ :=
  ⟨p.corridor.forget, p.learned, p.scored⟩

/-- The inputs of the run without a validator. -/
def AssemblyInputs.unvalidated (inputs : AssemblyInputs σ) : AssemblyInputs σ :=
  { inputs with
    candidates := inputs.candidates.map CandidateCorridor.forget
    useValidationTieBreak := false }

/-- The inputs with their validation scores, under the plain tie-break. -/
def AssemblyInputs.plain (inputs : AssemblyInputs σ) : AssemblyInputs σ :=
  { inputs with useValidationTieBreak := false }

theorem scored?_forget (c : CandidateCorridor σ) :
    c.forget.scored? = c.scored?.map ScoredCorridor.forget := by
  cases h : c.scored? with
  | none =>
    have hnone := scored?_eq_none.mp h
    rw [Option.map_none, scored?_eq_none]
    exact hnone
  | some p =>
    rw [Option.map_some, scored?_eq_some]
    exact congrArg CandidateCorridor.forget (scored?_eq_some.mp h)

theorem candidatesFor_forget (candidates : List (CandidateCorridor σ)) (src dst : Anchor) :
    candidatesFor (candidates.map CandidateCorridor.forget) src dst =
      (candidatesFor candidates src dst).map ScoredCorridor.forget := by
  unfold candidatesFor
  rw [List.filter_map, List.filterMap_map, List.map_filterMap]
  apply List.filterMap_congr
  intro c hc
  exact scored?_forget c

variable [Score σ]

theorem tieBreakOrder_forget (pool : List (ScoredCorridor σ)) :
    tieBreakOrder false (pool.map ScoredCorridor.forget) =
      (tieBreakOrder false pool).map ScoredCorridor.forget := by
  rw [tieBreakOrder, tieBreakOrder, if_neg Bool.false_ne_true, if_neg Bool.false_ne_true, sortBy_map]
  rfl

/-- Without the scores the plain tie-break chooses the same corridors. -/
theorem choice_unvalidated (digest : String → Nat) (inputs : AssemblyInputs σ) (i : Nat) :
    choice digest inputs.unvalidated i =
      (choice digest inputs.plain i).map ScoredCorridor.forget := by
  unfold choice
  show ((inputs.anchors.zip inputs.anchors.tail)[i]?.bind fun ends => _) =
    ((inputs.anchors.zip inputs.anchors.tail)[i]?.bind fun ends => _).map _
  cases hends : (inputs.anchors.zip inputs.anchors.tail)[i]? with
  | none => rfl
  | some ends =>
    rw [Option.bind_some, Option.bind_some]
    show pickFrom digest inputs.unvalidated i (tieBreakOrder false
        (candidatesFor (inputs.candidates.map CandidateCorridor.forget) ends.1 ends.2)) =
      (pickFrom digest inputs.plain i
        (tieBreakOrder false (candidatesFor inputs.candidates ends.1 ends.2))).map _
    rw [candidatesFor_forget, tieBreakOrder_forget, pickFrom, pickFrom, List.length_map,
      List.getElem?_map]
    rfl

omit [Score σ] in
theorem guarded_plain {inputs : AssemblyInputs σ} : Guarded inputs.plain ↔ Guarded inputs :=
  ⟨fun h => ⟨h.anchors, h.linked, h.candidates⟩, fun h => ⟨h.anchors, h.linked, h.candidates⟩⟩

omit [Score σ] in
theorem guarded_unvalidated {inputs : AssemblyInputs σ} :
    Guarded inputs.unvalidated ↔ Guarded inputs := by
  constructor
  · intro h
    exact ⟨h.anchors, h.linked, fun hnil => h.candidates (List.map_eq_nil_iff.mpr hnil)⟩
  · intro h
    exact ⟨h.anchors, h.linked, fun hnil => h.candidates (List.map_eq_nil_iff.mp hnil)⟩

omit [Score σ] in
theorem unscored_unvalidated {inputs : AssemblyInputs σ} {i : Nat} :
    Unscored inputs.unvalidated i ↔ Unscored inputs i := by
  unfold Unscored AssemblyInputs.unvalidated
  simp only [List.forall_mem_map]
  rfl

theorem withoutCells_unvalidated {digest : String → Nat} {inputs : AssemblyInputs σ} {i : Nat} :
    WithoutCells digest inputs.unvalidated i ↔ WithoutCells digest inputs.plain i := by
  unfold WithoutCells
  rw [choice_unvalidated]
  constructor
  · rintro ⟨top, htop, hnil⟩
    obtain ⟨p, hp, rfl⟩ := Option.map_eq_some_iff.mp htop
    exact ⟨p, hp, hnil⟩
  · rintro ⟨p, hp, hnil⟩
    exact ⟨p.forget, by rw [hp]; rfl, hnil⟩

/-- The run without a validator has a route when the plain tie-break has one. -/
theorem routed_unvalidated {digest : String → Nat} {inputs : AssemblyInputs σ} :
    Routed digest inputs.unvalidated ↔ Routed digest inputs.plain := by
  have hlink : ∀ j, EmptyLink digest inputs.unvalidated j ↔ EmptyLink digest inputs.plain j := by
    intro j
    unfold EmptyLink
    rw [withoutCells_unvalidated, withoutCells_unvalidated]
    rfl
  constructor
  · intro h
    have hguarded := guarded_plain.mpr (guarded_unvalidated.mp h.guarded)
    exact ⟨hguarded, fun j hj => h.scored j (unscored_unvalidated.mpr hj),
      fun j hj => h.cells j ((hlink j).mpr hj)⟩
  · intro h
    have hguarded := guarded_unvalidated.mpr (guarded_plain.mp h.guarded)
    exact ⟨hguarded, fun j hj => h.scored j (unscored_unvalidated.mp hj),
      fun j hj => h.cells j ((hlink j).mp hj)⟩

/-! ## The validator pass -/

omit [Score σ] in
theorem forget_eq_self {c : CandidateCorridor σ} (h : c.validationScore = none) : c.forget = c := by
  cases c
  simp only at h
  subst h
  rfl

/-- Every replacement is the candidate at its place, the validation score apart. -/
def Replaces (candidates : List (CandidateCorridor σ))
    (replacements : Dict Nat (CandidateCorridor σ)) : Prop :=
  ∀ kv ∈ replacements.items, candidates[kv.1]? = some kv.2.forget

omit [Score σ] in
theorem replaces_scoreObject {candidates : List (CandidateCorridor σ)} {validator : Validator σ}
    {idx : Nat} {replacements : Dict Nat (CandidateCorridor σ)} {o : CandidateObject σ}
    (ho : candidates[o.2]? = some o.1.forget) (h : Replaces candidates replacements) :
    Replaces candidates (scoreObject validator idx replacements o) := by
  unfold scoreObject
  split
  · exact h
  · split
    · exact h
    · exact Dict.forall_upsert
        (P := fun k (c : CandidateCorridor σ) => candidates[k]? = some c.forget) h fun _ _ => ho

theorem replaces_scoreInterval {candidates : List (CandidateCorridor σ)} {validator : Validator σ}
    {cap : Nat} {byInterval : Dict IntervalKey (List (CandidateObject σ))} {entry : IntervalKey × Nat}
    (hobjects : ∀ o ∈ (byInterval.get? entry.1).getD [], candidates[o.2]? = some o.1.forget)
    {replacements : Dict Nat (CandidateCorridor σ)} (h : Replaces candidates replacements) :
    Replaces candidates (scoreInterval validator cap byInterval replacements entry) := by
  have hpool : ∀ o ∈ (sortBy (fun o => tieBreakKey o.1)
      ((byInterval.get? entry.1).getD [])).take cap, candidates[o.2]? = some o.1.forget := fun o ho =>
    hobjects o ((mem_sortBy _ _ o).mp (List.mem_of_mem_take ho))
  unfold scoreInterval
  exact List.foldlRecOn _ _ h fun replacements h o ho => replaces_scoreObject (hpool o ho) h

/-- The validator pass only adds validation scores. -/
theorem map_forget_scoreTop {candidates : List (CandidateCorridor σ)}
    (hnone : ∀ c ∈ candidates, c.validationScore = none) (validator : Validator σ) (cap : Nat) :
    (scoreTopCandidatesPerInterval candidates validator cap).map CandidateCorridor.forget =
      candidates := by
  have hobject : ∀ o ∈ candidates.zipIdx, candidates[o.2]? = some o.1.forget := by
    rintro ⟨c, i⟩ ho
    have hget : candidates[i]? = some c := List.mem_zipIdx_iff_getElem?.mp ho
    rw [forget_eq_self (hnone c (List.mem_of_getElem? hget)), hget]
  have hpool : ∀ key : IntervalKey,
      ∀ o ∈ ((objectsByInterval candidates.zipIdx).get? key).getD [],
        candidates[o.2]? = some o.1.forget := by
    intro key o ho
    unfold objectsByInterval at ho
    rw [Dict.getD_get?_foldl_append] at ho
    have hmem : o ∈ candidates.zipIdx ∧ o.1.intervalKey = key := by
      simpa [Dict.empty, Dict.get?] using ho
    exact hobject o hmem.1
  unfold scoreTopCandidatesPerInterval
  simp only
  generalize hr : (sortBy intervalOrderKey (objectsByInterval candidates.zipIdx).keys).zipIdx.foldl
    (scoreInterval validator cap (objectsByInterval candidates.zipIdx)) Dict.empty = replacements
  have hreplaces : Replaces candidates replacements := by
    rw [← hr]
    refine List.foldlRecOn _ _ ?_ fun replacements h entry _ =>
      replaces_scoreInterval (hpool entry.1) h
    intro kv hkv
    cases hkv
  rw [List.map_map]
  calc candidates.zipIdx.map _ = candidates.zipIdx.map Prod.fst := by
        apply List.map_congr_left
        rintro ⟨c, i⟩ ho
        have hget : candidates[i]? = some c := List.mem_zipIdx_iff_getElem?.mp ho
        show ((replacements.get? i).getD c).forget = c
        cases hi : replacements.get? i with
        | none => exact forget_eq_self (hnone c (List.mem_of_getElem? hget))
        | some d =>
          have hd := hreplaces _ (Dict.mem_items_of_get? hi)
          rw [hget, Option.some_inj] at hd
          exact hd.symm
    _ = candidates := List.zipIdx_map_fst 0 candidates

theorem map_forget_validated {candidates : List (CandidateCorridor σ)}
    (hnone : ∀ c ∈ candidates, c.validationScore = none) (validator : Option (Validator σ))
    (topK : Int) : (validated validator topK candidates).map CandidateCorridor.forget =
      candidates := by
  cases validator with
  | some validator => exact map_forget_scoreTop hnone validator _
  | none =>
    refine (List.map_congr_left fun c hc => forget_eq_self (hnone c hc)).trans ?_
    exact List.map_id candidates

/-! ## Overtaking -/

/-- As many candidates of the pool pass `p` when validation counts as fall behind it. -/
def OvertakenAsOften (pool : List (ScoredCorridor σ)) (p : ScoredCorridor σ) : Prop :=
  (pool.countP fun d => decide (tieBreakKey p.corridor < tieBreakKey d.corridor ∧
      tieBreakKeyWithValidation d.corridor < tieBreakKeyWithValidation p.corridor)) =
    pool.countP fun d => decide (tieBreakKey d.corridor < tieBreakKey p.corridor ∧
      tieBreakKeyWithValidation p.corridor < tieBreakKeyWithValidation d.corridor)

/-- In a pool with distinct keys an entry keeps its index under the validation-aware key exactly
    when it is overtaken as often as it overtakes. -/
theorem getElem?_tieBreakOrder_iff {pool : List (ScoredCorridor σ)}
    (hkeys : (pool.map fun p => tieBreakKey p.corridor).Nodup) {i : Nat} {p : ScoredCorridor σ}
    (hp : (tieBreakOrder false pool)[i]? = some p) :
    (tieBreakOrder true pool)[i]? = some p ↔ OvertakenAsOften pool p := by
  have hkeys' : (pool.map fun p => tieBreakKeyWithValidation p.corridor).Nodup :=
    nodup_map_of_key hkeys tieBreakKey_eq_of_withValidation
  exact getElem?_sortBy_other_iff hkeys hkeys' hp

/-- The corridor that the plain tie-break picks for the interval `i` is overtaken as often as it
    overtakes. -/
def PickKept (digest : String → Nat) (inputs : AssemblyInputs σ) (i : Nat) : Prop :=
  ∀ ends p, (inputs.anchors.zip inputs.anchors.tail)[i]? = some ends →
    choice digest inputs.plain i = some p →
      OvertakenAsOften (candidatesFor inputs.candidates ends.1 ends.2) p

omit [Score σ] in
theorem candidatesFor_nodup {candidates : List (CandidateCorridor σ)}
    (hids : (candidates.map (·.corridorId)).Nodup) (src dst : Anchor) :
    ((candidatesFor candidates src dst).map (·.corridor.corridorId)).Nodup := by
  have hsub : ((candidatesFor candidates src dst).map (·.corridor)).Sublist candidates := by
    unfold candidatesFor
    generalize hcs : candidates.filter (fun c => decide (c.intervalKey = (src.key, dst.key))) = cs
    refine List.Sublist.trans ?_ (hcs ▸ List.filter_sublist)
    clear hcs
    induction cs with
    | nil => exact List.Sublist.slnil
    | cons c cs ih =>
      cases hc : c.scored? with
      | none =>
        rw [List.filterMap_cons_none hc]
        exact ih.cons c
      | some p =>
        rw [List.filterMap_cons_some hc, List.map_cons, scored?_eq_some.mp hc]
        exact ih.cons_cons c
  have hmap := (hsub.map (·.corridorId)).nodup hids
  rwa [List.map_map] at hmap

/-- Switching the validation-aware tie-break on keeps the corridor of an interval exactly when its
    pick is overtaken as often as it overtakes. -/
theorem choice_eq_plain_iff (digest : String → Nat) {inputs : AssemblyInputs σ}
    (hflag : inputs.useValidationTieBreak = true)
    (hids : (inputs.candidates.map (·.corridorId)).Nodup) (i : Nat) :
    choice digest inputs i = choice digest inputs.plain i ↔ PickKept digest inputs i := by
  cases hends : (inputs.anchors.zip inputs.anchors.tail)[i]? with
  | none =>
    have hnone : choice digest inputs i = none := choice_eq_none_of_ends hends
    have hnone' : choice digest inputs.plain i = none := choice_eq_none_of_ends hends
    rw [hnone, hnone', PickKept]
    simp [hends]
  | some ends =>
    have hkeys : ((candidatesFor inputs.candidates ends.1 ends.2).map
        fun p => tieBreakKey p.corridor).Nodup :=
      nodup_map_of_key (candidatesFor_nodup hids ends.1 ends.2) corridorId_of_tieBreakKey
    have hlength : (tieBreakOrder true (candidatesFor inputs.candidates ends.1 ends.2)).length =
        (tieBreakOrder false (candidatesFor inputs.candidates ends.1 ends.2)).length :=
      ((tieBreakOrder_perm _ _).trans (tieBreakOrder_perm _ _).symm).length_eq
    have hchoice : choice digest inputs i = (tieBreakOrder true
        (candidatesFor inputs.candidates ends.1 ends.2))[pickWithinTopK digest inputs.randomSeed i
          (tieBreakOrder false (candidatesFor inputs.candidates ends.1 ends.2)).length
            inputs.topKCandidates]? := by
      rw [choice_eq hends, hflag, pickFrom, hlength]
    have hplain : choice digest inputs.plain i = pickFrom digest inputs.plain i
        (tieBreakOrder false (candidatesFor inputs.candidates ends.1 ends.2)) :=
      choice_eq hends
    unfold PickKept
    rw [hchoice]
    cases hp : choice digest inputs.plain i with
    | none =>
      have hnil := pickFrom_eq_none.mp (hplain.symm.trans hp)
      have hnil' := List.length_eq_zero_iff.mp (hlength.trans (List.length_eq_zero_iff.mpr hnil))
      rw [hnil']
      simp
    | some p =>
      have hp' := hplain.symm.trans hp
      refine (getElem?_tieBreakOrder_iff hkeys hp').trans ⟨fun h ends' p' hends' hp'' => ?_,
        fun h => h ends p hends rfl⟩
      rw [hends, Option.some_inj] at hends'
      rw [← hends', ← Option.some.inj hp'']
      exact h

end TraxMania.Generation.Route
