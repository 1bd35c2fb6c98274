import TraxMania.Generation.ValidationTieBreak

/-
  The validator pass call by call: which candidate the validator is asked about, with which interval
  index, and what the candidates are afterwards.
-/

namespace TraxMania.Generation.Route

open Lib Lib.SortBy

variable {σ : Type}

/-! ## The stored intervals -/

/-- The intervals that have rows. -/
def storedIntervals (candidates : List (CandidateCorridor σ)) : List IntervalKey :=
  (objectsByInterval candidates.zipIdx).keys

/-- The index of an interval in `interval_order`: the stored intervals before it. -/
def intervalRank (candidates : List (CandidateCorridor σ)) (key : IntervalKey) : Nat :=
  (storedIntervals candidates).countP fun k =>
    decide (intervalOrderKey k < intervalOrderKey key)

theorem mem_storedIntervals {candidates : List (CandidateCorridor σ)} {key : IntervalKey} :
    key ∈ storedIntervals candidates ↔ ∃ c ∈ candidates, c.intervalKey = key := by
  unfold storedIntervals objectsByInterval
  rw [Dict.mem_keys_foldl]
  have hempty : key ∉ (Dict.empty : Dict IntervalKey (List (CandidateObject σ))).keys := by
    intro h
    cases h
  constructor
  · intro h
    rcases h with h | h
    · exact absurd h hempty
    · obtain ⟨o, ho, hkey⟩ := h
      have hget : candidates[o.2]? = some o.1 := List.mem_zipIdx_iff_getElem?.mp ho
      exact ⟨o.1, List.mem_of_getElem? hget, hkey⟩
  · intro h
    obtain ⟨c, hc, hkey⟩ := h
    obtain ⟨i, hi⟩ := List.mem_iff_getElem?.mp hc
    have hmem : (c, i) ∈ candidates.zipIdx := List.mem_zipIdx_iff_getElem?.mpr hi
    exact Or.inr ⟨(c, i), hmem, hkey⟩

theorem storedIntervals_nodup (candidates : List (CandidateCorridor σ)) :
    (storedIntervals candidates).Nodup := Dict.keys_nodup _

theorem intervalOrderKey_injective {k k' : IntervalKey}
    (h : intervalOrderKey k = intervalOrderKey k') : k = k' := by
  simp only [intervalOrderKey, EmbeddingLike.apply_eq_iff_eq, Prod.mk.injEq] at h
  exact Prod.ext (Prod.ext h.2.2.1 h.1) (Prod.ext h.2.2.2 h.2.1)

/-- `enumerate(interval_order)`. -/
theorem getElem?_intervalOrder_iff {candidates : List (CandidateCorridor σ)} {key : IntervalKey}
    {idx : Nat} :
    (sortBy intervalOrderKey (storedIntervals candidates))[idx]? = some key ↔
      key ∈ storedIntervals candidates ∧ intervalRank candidates key = idx := by
  refine getElem?_sortBy_iff ?_ key idx
  exact (List.nodup_map_iff_inj_on (storedIntervals_nodup candidates)).mpr
    fun k _ k' _ h => intervalOrderKey_injective h

/-! ## The calls -/

variable [Score σ]

/-- `pool[:per_interval_cap]` of an interval, as candidates. -/
def intervalShortlist (cap : Nat) (candidates : List (CandidateCorridor σ)) (key : IntervalKey) :
    List (CandidateCorridor σ) :=
  (sortBy tieBreakKey (candidates.filter fun c => decide (c.intervalKey = key))).take cap

/-- `pool[:per_interval_cap]` of an interval, as objects. -/
def objectShortlist (cap : Nat) (candidates : List (CandidateCorridor σ)) (key : IntervalKey) :
    List (CandidateObject σ) :=
  (sortBy (fun o => tieBreakKey o.1)
    (((objectsByInterval candidates.zipIdx).get? key).getD [])).take cap

/-- The calls `validator(c, idx)`, in order. -/
def validatorCalls (candidates : List (CandidateCorridor σ)) (cap : Nat) :
    List (CandidateObject σ × Nat) :=
  (sortBy intervalOrderKey (storedIntervals candidates)).zipIdx.flatMap fun entry =>
    ((objectShortlist cap candidates entry.1).filter fun o =>
      o.1.learnedCorridorScore.isSome).map fun o => (o, entry.2)

omit [Score σ] in
theorem objects_of_interval (candidates : List (CandidateCorridor σ)) (key : IntervalKey) :
    ((objectsByInterval candidates.zipIdx).get? key).getD [] =
      candidates.zipIdx.filter fun o => decide (o.1.intervalKey = key) := by
  unfold objectsByInterval
  rw [Dict.getD_get?_foldl_append]
  rfl

theorem map_fst_objectShortlist (cap : Nat) (candidates : List (CandidateCorridor σ))
    (key : IntervalKey) :
    (objectShortlist cap candidates key).map Prod.fst = intervalShortlist cap candidates key := by
  unfold objectShortlist intervalShortlist
  rw [objects_of_interval, List.map_take, ← sortBy_map]
  have hfst : candidates.filter (fun c => decide (c.intervalKey = key)) =
      (candidates.zipIdx.filter fun o => decide (o.1.intervalKey = key)).map Prod.fst := by
    conv_lhs => rw [← List.zipIdx_map_fst 0 candidates]
    rw [List.filter_map]
    rfl
  rw [hfst]

theorem mem_of_mem_objectShortlist {cap : Nat} {candidates : List (CandidateCorridor σ)}
    {key : IntervalKey} {o : CandidateObject σ} (h : o ∈ objectShortlist cap candidates key) :
    candidates[o.2]? = some o.1 ∧ o.1.intervalKey = key := by
  have hmem := (mem_sortBy _ _ o).mp (List.mem_of_mem_take h)
  rw [objects_of_interval, List.mem_filter, decide_eq_true_iff] at hmem
  exact ⟨List.mem_zipIdx_iff_getElem?.mp hmem.1, hmem.2⟩

/-- The validator is asked about the scored candidates of a shortlist, with the index of their
interval in `interval_order`. -/
theorem mem_validatorCalls {candidates : List (CandidateCorridor σ)} {cap : Nat}
    {o : CandidateObject σ} {idx : Nat} :
    (o, idx) ∈ validatorCalls candidates cap ↔
      o ∈ objectShortlist cap candidates o.1.intervalKey ∧
        o.1.learnedCorridorScore.isSome = true ∧ idx = intervalRank candidates o.1.intervalKey := by
  unfold validatorCalls
  rw [List.mem_flatMap]
  constructor
  · intro h
    obtain ⟨entry, hentry, hcall⟩ := h
    obtain ⟨o', ho', heq⟩ := List.mem_map.mp hcall
    obtain ⟨hmem, hscored⟩ := List.mem_filter.mp ho'
    obtain ⟨rfl, rfl⟩ := Prod.mk.inj heq
    have hkey := (mem_of_mem_objectShortlist hmem).2
    obtain ⟨-, hrank⟩ := getElem?_intervalOrder_iff.mp (List.mem_zipIdx_iff_getElem?.mp hentry)
    rw [hkey]
    exact ⟨hmem, hscored, hrank.symm⟩
  · intro h
    obtain ⟨hmem, hscored, hidx⟩ := h
    have hget := (mem_of_mem_objectShortlist hmem).1
    have hstored : o.1.intervalKey ∈ storedIntervals candidates :=
      mem_storedIntervals.mpr ⟨o.1, List.mem_of_getElem? hget, rfl⟩
    have hentry := getElem?_intervalOrder_iff.mpr ⟨hstored, hidx.symm⟩
    refine ⟨(o.1.intervalKey, idx), List.mem_zipIdx_iff_getElem?.mpr hentry, ?_⟩
    exact List.mem_map.mpr ⟨o, List.mem_filter.mpr ⟨hmem, hscored⟩, rfl⟩

/-! ## After the calls -/

/-- The candidate with a validation score, when the validator gave one. -/
def CandidateCorridor.withScore (c : CandidateCorridor σ) (score : Option σ) :
    CandidateCorridor σ :=
  match score with
  | none => c
  | some score => { c with validationScore := some score }

/-- What the loop does with the answer to a call. -/
def takeScore (validator : Validator σ) (replacements : Dict Nat (CandidateCorridor σ))
    (call : CandidateObject σ × Nat) : Dict Nat (CandidateCorridor σ) :=
  match validator call.1.1 call.2 with
  | none => replacements
  | some score => replacements.upsert call.1.2 fun _ => { call.1.1 with validationScore := some score }

/-- The pass is the loop over its calls. -/
theorem scoreTop_eq_calls (candidates : List (CandidateCorridor σ)) (validator : Validator σ)
    (cap : Nat) :
    scoreTopCandidatesPerInterval candidates validator cap =
      candidates.zipIdx.map fun o =>
        (((validatorCalls candidates cap).foldl (takeScore validator) Dict.empty).get? o.2).getD
          o.1 := by
  have hinterval : scoreInterval validator cap (objectsByInterval candidates.zipIdx) =
      fun replacements entry => (((objectShortlist cap candidates entry.1).filter fun o =>
        o.1.learnedCorridorScore.isSome).map fun o => (o, entry.2)).foldl (takeScore validator)
          replacements := by
    funext replacements entry
    rw [List.foldl_map, List.foldl_filter]
    unfold scoreInterval
    dsimp only
    show (objectShortlist cap candidates entry.1).foldl _ _ = _
    congr 1
    funext replacements o
    unfold scoreObject takeScore
    cases o.1.learnedCorridorScore with
    | none => rfl
    | some s => rfl
  unfold scoreTopCandidatesPerInterval validatorCalls
  dsimp only
  rw [hinterval, List.foldl_flatMap]
  rfl

omit [Score σ] in
theorem get?_takeScore (validator : Validator σ) (replacements : Dict Nat (CandidateCorridor σ))
    (call : CandidateObject σ × Nat) (i : Nat) :
    (takeScore validator replacements call).get? i =
      if i = call.1.2 then ((validator call.1.1 call.2).map fun score =>
        { call.1.1 with validationScore := some score }).or (replacements.get? i)
      else replacements.get? i := by
  unfold takeScore
  cases validator call.1.1 call.2 with
  | none =>
    dsimp only [Option.map_none, Option.none_or]
    rw [ite_self]
  | some score =>
    dsimp only [Option.map_some, Option.some_or]
    rw [Dict.get?_upsert]

omit [Score σ] in
/-- An object about which there is one call at most is replaced as that call says. -/
theorem get?_takeScores (validator : Validator σ) (calls : List (CandidateObject σ × Nat))
    {o : CandidateObject σ} {idx : Nat} (hone : ∀ call ∈ calls, call.1.2 = o.2 → call = (o, idx)) :
    ((o, idx) ∈ calls → (calls.foldl (takeScore validator) Dict.empty).get? o.2 =
      (validator o.1 idx).map fun score => { o.1 with validationScore := some score }) ∧
    ((o, idx) ∉ calls → (calls.foldl (takeScore validator) Dict.empty).get? o.2 = none) := by
  induction calls using List.reverseRecOn with
  | nil => exact ⟨fun h => absurd h List.not_mem_nil, fun _ => rfl⟩
  | append_singleton calls call ih =>
    have ih' := ih fun call h => hone call (List.mem_append_left _ h)
    rw [List.foldl_concat, get?_takeScore]
    have hlast : call ∈ calls ++ [call] := List.mem_append_right _ (List.mem_singleton.mpr rfl)
    by_cases hi : o.2 = call.1.2
    · have hcall := hone call hlast hi.symm
      subst hcall
      rw [if_pos rfl]
      refine ⟨fun _ => ?_, fun h => absurd hlast h⟩
      by_cases hmem : (o, idx) ∈ calls
      · rw [ih'.1 hmem, Option.or_self]
      · rw [ih'.2 hmem, Option.or_none]
    · have hiff : (o, idx) ∈ calls ++ [call] ↔ (o, idx) ∈ calls := by
        rw [List.mem_append, List.mem_singleton]
        exact or_iff_left fun h => hi (by rw [← h])
      rw [if_neg hi, hiff]
      exact ih'

/-- Whether a candidate is on the shortlist of its interval. -/
def onShortlist (cap : Nat) (candidates : List (CandidateCorridor σ)) (c : CandidateCorridor σ) :
    Bool :=
  decide (c.corridorId ∈
    (intervalShortlist cap candidates c.intervalKey).map (·.corridorId))

/-- The score the pass asks for: of the scored candidates on the shortlists. -/
def askedScore (validator : Validator σ) (cap : Nat) (candidates : List (CandidateCorridor σ))
    (c : CandidateCorridor σ) : Option σ :=
  if c.learnedCorridorScore.isSome && onShortlist cap candidates c then
    validator c (intervalRank candidates c.intervalKey)
  else none

theorem mem_objectShortlist_iff {cap : Nat} {candidates : List (CandidateCorridor σ)}
    (hids : (candidates.map (·.corridorId)).Nodup) {o : CandidateObject σ}
    (ho : candidates[o.2]? = some o.1) :
    o ∈ objectShortlist cap candidates o.1.intervalKey ↔ onShortlist cap candidates o.1 = true := by
  unfold onShortlist
  rw [decide_eq_true_iff, ← map_fst_objectShortlist, List.map_map]
  constructor
  · intro h
    exact List.mem_map.mpr ⟨o, h, rfl⟩
  · intro h
    obtain ⟨o', ho', hid⟩ := List.mem_map.mp h
    have hget := (mem_of_mem_objectShortlist ho').1
    have hplace : o'.2 = o.2 := by
      obtain ⟨hlt, -⟩ := List.getElem?_eq_some_iff.mp hget
      have hlt' : o'.2 < (candidates.map (·.corridorId)).length := by
        rw [List.length_map]
        exact hlt
      refine (List.getElem?_inj hlt' hids).mp ?_
      rw [List.getElem?_map, List.getElem?_map, hget, ho]
      exact congrArg some hid
    rw [hplace, ho, Option.some_inj] at hget
    have heq : o' = o := Prod.ext hget.symm hplace
    rw [← heq]
    rw [heq] at ho' ⊢
    exact ho'

/-- The candidates after the pass: those asked about carry the validator's answer. -/
theorem scoreTop_eq_map {candidates : List (CandidateCorridor σ)}
    (hids : (candidates.map (·.corridorId)).Nodup) (validator : Validator σ) (cap : Nat) :
    scoreTopCandidatesPerInterval candidates validator cap =
      candidates.map fun c => c.withScore (askedScore validator cap candidates c) := by
  have hplaces : (candidates.map fun c => c.withScore (askedScore validator cap candidates c)) =
      candidates.zipIdx.map fun o =>
        o.1.withScore (askedScore validator cap candidates o.1) := by
    generalize askedScore validator cap candidates = score
    conv_lhs => rw [← List.zipIdx_map_fst 0 candidates, List.map_map]
    rfl
  rw [scoreTop_eq_calls, hplaces]
  refine List.map_congr_left fun o ho => ?_
  have hget : candidates[o.2]? = some o.1 := List.mem_zipIdx_iff_getElem?.mp ho
  have hone : ∀ call ∈ validatorCalls candidates cap, call.1.2 = o.2 →
      call = (o, intervalRank candidates o.1.intervalKey) := by
    intro call hcall hplace
    obtain ⟨hmem, -, hidx⟩ := mem_validatorCalls.mp hcall
    have hget' := (mem_of_mem_objectShortlist hmem).1
    rw [hplace, hget, Option.some_inj] at hget'
    have heq : call.1 = o := Prod.ext hget'.symm hplace
    rw [heq] at hidx
    exact Prod.ext heq hidx
  have hcall : (o, intervalRank candidates o.1.intervalKey) ∈ validatorCalls candidates cap ↔
      (o.1.learnedCorridorScore.isSome && onShortlist cap candidates o.1) = true := by
    rw [mem_validatorCalls, mem_objectShortlist_iff hids hget, Bool.and_eq_true]
    tauto
  obtain ⟨hin, hout⟩ := get?_takeScores validator (validatorCalls candidates cap) hone
  unfold askedScore
  by_cases hc : (o.1.learnedCorridorScore.isSome && onShortlist cap candidates o.1) = true
  · rw [if_pos hc, hin (hcall.mpr hc)]
    cases validator o.1 (intervalRank candidates o.1.intervalKey) with
    | none => rfl
    | some score => rfl
  · rw [if_neg hc, hout (fun h => hc (hcall.mp h))]
    rfl

end TraxMania.Generation.Route
