import TraxMania.Generation.HalfRoutes
import TraxMania.Generation.ValidatorCalls
import TraxMania.Lib.Shortlist

/-
  What the cap of the validator pass changes. Only the candidates of an interval that come first by
  the plain tie-break are validated; the others sort between the validated ones with a score and
  those with the score zero. The corridor of an interval is the one that would be picked if all were
  validated exactly when the picked place is settled among the candidates of its learned score.
-/

namespace TraxMania.Generation.Route

open Lib.SortBy Lib.Shortlist

variable {σ : Type} [Score σ]

/-! ## The two runs -/

/-- The inputs when every scored candidate is validated. -/
def AssembleArgs.readAll (py : Python) (args : AssembleArgs σ) (validator : Validator σ) :
    AssemblyInputs σ :=
  let candidates := candidatesOf py (corridorsQuery args.version args.corridors)
  { args.read py with
    candidates := scoreTopCandidatesPerInterval candidates validator candidates.length }

/-- The two runs pick the same corridor for every interval. -/
def SameChoices (digest : String → Nat) (inputs inputs' : AssemblyInputs σ) : Prop :=
  ∀ i, (choice digest inputs i).map ScoredCorridor.forget =
    (choice digest inputs' i).map ScoredCorridor.forget

/-- The two routes have the same corridor in every interval. -/
def SameCorridors (r r' : AssembledRoute σ) : Prop :=
  r.intervals.map (·.chosen.corridorId) = r'.intervals.map (·.chosen.corridorId)

/-- Negation reverses the order, and minus one is negative. -/
structure NegReverses (σ : Type) [Score σ] : Prop where
  neg_lt_neg : ∀ a b : σ, -a < -b ↔ b < a
  neg_one_lt : ((-1 : Int) : σ) < ((0 : Int) : σ)

/-! ## The keys of a pool -/

/-- The leading part of both tie-break keys. -/
def learnedLead (p : ScoredCorridor σ) : σ := negated p.corridor.learnedCorridorScore

/-- The plain tie-break key. -/
def plainKey (p : ScoredCorridor σ) : σ ×ₗ σ ×ₗ Int ×ₗ Int := tieBreakKey p.corridor

/-- The candidate with the score `val` when it is asked for. -/
def marked (asked : ScoredCorridor σ → Bool) (val : ScoredCorridor σ → σ) (p : ScoredCorridor σ) :
    CandidateCorridor σ :=
  p.corridor.withScore (if asked p then some (val p) else none)

section Keys

variable {asked : ScoredCorridor σ → Bool} {val : ScoredCorridor σ → σ} {a b p : ScoredCorridor σ}

/-- The rest of the keys, behind the learned score. -/
def restKey (p : ScoredCorridor σ) : σ ×ₗ Int ×ₗ Int :=
  toLex (negated p.corridor.combinedSequenceScore,
    toLex (p.corridor.pathLength, p.corridor.corridorId))

theorem plainKey_lt_iff (h : learnedLead a = learnedLead b) :
    plainKey a < plainKey b ↔ restKey a < restKey b := by
  have hlead : plainKey a = toLex (learnedLead a, restKey a) := rfl
  have hlead' : plainKey b = toLex (learnedLead b, restKey b) := rfl
  rw [hlead, hlead', Prod.Lex.toLex_lt_toLex]
  simp [h]

/-- The validation-aware key: asked or not, zero or not. -/
theorem markedKey_cases (hp : p.corridor.validationScore = none) :
    tieBreakKeyWithValidation (marked asked val p) =
      toLex (learnedLead p,
        toLex (if asked p = true ∧ val p = ((0 : Int) : σ) then 1 else 0,
          toLex (if asked p = true then -(val p) else -((-1 : Int) : σ), restKey p))) := by
  unfold marked tieBreakKeyWithValidation
  cases ha : asked p with
  | true =>
    simp only [if_true, true_and, CandidateCorridor.withScore, zeroFloor, Option.some_inj]
    rfl
  | false =>
    simp only [Bool.false_eq_true, if_false, false_and, CandidateCorridor.withScore, zeroFloor, hp,
      reduceCtorEq]
    rfl

omit [Score σ] in
theorem marked_congr {asked' : ScoredCorridor σ → Bool} (h : asked p = asked' p) :
    marked asked val p = marked asked' val p := by
  unfold marked
  rw [h]

/-- The validation-aware order of a pool is that of a shortlist. -/
theorem markedKey_lt_iff (laws : NegReverses σ) (ha : a.corridor.validationScore = none)
    (hb : b.corridor.validationScore = none) (ha0 : ((0 : Int) : σ) ≤ val a)
    (hb0 : ((0 : Int) : σ) ≤ val b) :
    tieBreakKeyWithValidation (marked asked val a) < tieBreakKeyWithValidation (marked asked val b) ↔
      led learnedLead (shortKey asked val ((0 : Int) : σ) plainKey) a <
        led learnedLead (shortKey asked val ((0 : Int) : σ) plainKey) b := by
  rw [markedKey_cases ha, markedKey_cases hb]
  unfold led
  refine Prod.Lex.toLex_lt_toLex.trans (Iff.trans ?_ Prod.Lex.toLex_lt_toLex.symm)
  refine or_congr Iff.rfl (and_congr_right fun hlead => ?_)
  dsimp only at hlead ⊢
  rw [shortKey_lt_iff, plainKey_lt_iff hlead, Prod.Lex.toLex_lt_toLex, Prod.Lex.toLex_lt_toLex]
  have hbelow : ∀ v : σ, ((0 : Int) : σ) ≤ v → -v < -((-1 : Int) : σ) := fun v hv =>
    (laws.neg_lt_neg _ _).mpr (lt_of_lt_of_le laws.neg_one_lt hv)
  have hinj : ∀ v w : σ, -v = -w ↔ v = w := by
    intro v w
    refine ⟨fun h => ?_, fun h => by rw [h]⟩
    rcases lt_trichotomy v w with hlt | heq | hlt
    · exact absurd h (ne_of_gt ((laws.neg_lt_neg w v).mpr hlt))
    · exact heq
    · exact absurd h (ne_of_lt ((laws.neg_lt_neg v w).mpr hlt))
  have hba := hbelow _ ha0
  have hbb := hbelow _ hb0
  rcases tier_cases asked val ((0 : Int) : σ) a with h | h | h
  · rcases tier_cases asked val ((0 : Int) : σ) b with h' | h' | h'
    · simp [h.1, h.2.1, h.2.2, h'.1, h'.2.1, h'.2.2, laws.neg_lt_neg, hinj]
    · simp [h.1, h.2.1, h.2.2, h'.1, h'.2, hba]
    · simp [h.1, h.2.1, h.2.2, h'.1, h'.2.1, h'.2.2]
  · rcases tier_cases asked val ((0 : Int) : σ) b with h' | h' | h'
    · simp [h.1, h.2, h'.1, h'.2.1, h'.2.2, not_lt_of_gt hbb, ne_of_gt hbb]
    · simp [h.1, h.2, h'.1, h'.2]
    · simp [h.1, h.2, h'.1, h'.2.1, h'.2.2]
  · rcases tier_cases asked val ((0 : Int) : σ) b with h' | h' | h'
    · simp [h.1, h.2.1, h.2.2, h'.1, h'.2.1, h'.2.2]
    · simp [h.1, h.2.1, h.2.2, h'.1, h'.2]
    · simp [h.1, h.2.1, h.2.2, h'.1, h'.2.1, h'.2.2]

end Keys

/-! ## Pools with their scores -/

/-- A scored candidate with a validation score. -/
def ScoredCorridor.withScore (p : ScoredCorridor σ) (score : Option σ) : ScoredCorridor σ where
  corridor := p.corridor.withScore score
  learned := p.learned
  scored := by
    cases score with
    | none => exact p.scored
    | some s => exact p.scored

omit [Score σ] in
theorem scored?_withScore (c : CandidateCorridor σ) (score : Option σ) :
    (c.withScore score).scored? = c.scored?.map fun p => p.withScore score := by
  have hlearned : (c.withScore score).learnedCorridorScore = c.learnedCorridorScore := by
    cases score with
    | none => rfl
    | some s => rfl
  cases h : c.scored? with
  | none =>
    rw [Option.map_none, scored?_eq_none, hlearned]
    exact scored?_eq_none.mp h
  | some p =>
    rw [Option.map_some, scored?_eq_some]
    exact congrArg (fun c => c.withScore score) (scored?_eq_some.mp h)

omit [Score σ] in
theorem candidatesFor_withScore (candidates : List (CandidateCorridor σ))
    (score : CandidateCorridor σ → Option σ) (src dst : Anchor) :
    candidatesFor (candidates.map fun c => c.withScore (score c)) src dst =
      (candidatesFor candidates src dst).map fun p => p.withScore (score p.corridor) := by
  have hkey : ∀ c : CandidateCorridor σ, ∀ s, (c.withScore s).intervalKey = c.intervalKey := by
    intro c s
    cases s with
    | none => rfl
    | some s => rfl
  unfold candidatesFor
  rw [List.filter_map, List.filterMap_map, List.map_filterMap]
  have hfilter : candidates.filter ((fun c => decide (c.intervalKey = (src.key, dst.key))) ∘
      fun c => c.withScore (score c)) =
        candidates.filter fun c => decide (c.intervalKey = (src.key, dst.key)) := by
    refine List.filter_congr fun c _ => ?_
    show decide ((c.withScore (score c)).intervalKey = _) = _
    rw [hkey]
  rw [hfilter]
  refine List.filterMap_congr fun c _ => ?_
  show (c.withScore (score c)).scored? = _
  rw [scored?_withScore]
  cases hc : c.scored? with
  | none => rfl
  | some p =>
    rw [Option.map_some, Option.map_some, scored?_eq_some.mp hc]

omit [Score σ] in
theorem forget_withScore {p : ScoredCorridor σ} (h : p.corridor.validationScore = none)
    (score : Option σ) : (p.withScore score).forget = p := by
  refine ScoredCorridor.ext ?_
  show (p.corridor.withScore score).forget = p.corridor
  cases score with
  | none => exact forget_eq_self h
  | some s => exact forget_eq_self h

/-- The choice for an interval whose pool got its scores from `score`, as a candidate without
one. -/
theorem choice_withScore {digest : String → Nat} {inputs : AssemblyInputs σ}
    (hflag : inputs.useValidationTieBreak = true) {candidates : List (CandidateCorridor σ)}
    (hnone : ∀ c ∈ candidates, c.validationScore = none) {score : CandidateCorridor σ → Option σ}
    (hinputs : inputs.candidates = candidates.map fun c => c.withScore (score c)) {i : Nat}
    {ends : Anchor × Anchor} (hends : (inputs.anchors.zip inputs.anchors.tail)[i]? = some ends) :
    (choice digest inputs i).map ScoredCorridor.forget =
      (sortBy (fun p => tieBreakKeyWithValidation (p.corridor.withScore (score p.corridor)))
        (candidatesFor candidates ends.1 ends.2))[pickWithinTopK digest inputs.randomSeed i
          (candidatesFor candidates ends.1 ends.2).length inputs.topKCandidates]? := by
  rw [choice_eq hends, hflag, hinputs, candidatesFor_withScore]
  unfold pickFrom tieBreakOrder
  rw [if_pos rfl, sortBy_map, List.length_map, (sortBy_perm _ _).length_eq, List.getElem?_map,
    Option.map_map]
  cases hget : (sortBy (fun p => tieBreakKeyWithValidation (p.withScore (score p.corridor)).corridor)
      (candidatesFor candidates ends.1 ends.2))[pickWithinTopK digest inputs.randomSeed i
        (candidatesFor candidates ends.1 ends.2).length inputs.topKCandidates]? with
  | none => exact hget.symm
  | some p =>
    have hmem := (mem_sortBy _ _ p).mp (List.mem_of_getElem? hget)
    refine Eq.trans ?_ hget.symm
    rw [Option.map_some]
    exact congrArg some (forget_withScore (hnone _ (mem_candidatesFor.mp hmem).1) _)

/-! ## Shortlists -/

/-- What is on a shortlist sorts before the rest of its interval. -/
theorem tieBreakKey_lt_of_shortlist {candidates : List (CandidateCorridor σ)}
    (hids : (candidates.map (·.corridorId)).Nodup) {cap : Nat} {c d : CandidateCorridor σ}
    (hc : c ∈ candidates) (hd : d ∈ candidates) (hkey : c.intervalKey = d.intervalKey)
    (hin : onShortlist cap candidates c = true) (hout : onShortlist cap candidates d = false) :
    tieBreakKey c < tieBreakKey d := by
  unfold onShortlist at hin hout
  rw [decide_eq_true_iff] at hin
  rw [decide_eq_false_iff_not, ← hkey] at hout
  obtain ⟨c', hc', hid⟩ := List.mem_map.mp hin
  unfold intervalShortlist at hc' hout
  have hmem := (mem_sortBy _ _ c').mp (List.mem_of_mem_take hc')
  have hsame : c' = c := List.inj_on_of_nodup_map hids (List.mem_filter.mp hmem).1 hc hid
  rw [hsame] at hc'
  have hdout : d ∉ (sortBy tieBreakKey (candidates.filter fun e =>
      decide (e.intervalKey = c.intervalKey))).take cap := fun h =>
    hout (List.mem_map.mpr ⟨d, h, rfl⟩)
  have hdmem : d ∈ sortBy tieBreakKey (candidates.filter fun e =>
      decide (e.intervalKey = c.intervalKey)) := by
    rw [mem_sortBy, List.mem_filter]
    exact ⟨hd, decide_eq_true hkey.symm⟩
  have hsorted := sortBy_pairwise tieBreakKey (candidates.filter fun e =>
    decide (e.intervalKey = c.intervalKey))
  generalize sortBy tieBreakKey (candidates.filter fun e =>
    decide (e.intervalKey = c.intervalKey)) = sorted at hc' hdout hdmem hsorted
  rw [← List.take_append_drop cap sorted] at hdmem hsorted
  have hddrop : d ∈ sorted.drop cap := (List.mem_append.mp hdmem).resolve_left hdout
  have hle := (List.pairwise_append.mp hsorted).2.2 c hc' d hddrop
  refine lt_of_le_of_ne hle fun heq => hdout ?_
  have hcd : c = d := List.inj_on_of_nodup_map hids hc hd (corridorId_of_tieBreakKey heq)
  rw [← hcd]
  exact hc'

/-- A cap no interval reaches leaves nobody out. -/
theorem onShortlist_of_length_le {candidates : List (CandidateCorridor σ)} {cap : Nat}
    (hcap : candidates.length ≤ cap) {c : CandidateCorridor σ} (hc : c ∈ candidates) :
    onShortlist cap candidates c = true := by
  unfold onShortlist intervalShortlist
  have hlen : (sortBy tieBreakKey (candidates.filter fun e =>
      decide (e.intervalKey = c.intervalKey))).length ≤ cap := by
    rw [(sortBy_perm _ _).length_eq]
    exact le_trans (List.length_filter_le _ _) hcap
  rw [decide_eq_true_iff, List.take_of_length_le hlen]
  refine List.mem_map.mpr ⟨c, ?_, rfl⟩
  rw [mem_sortBy, List.mem_filter]
  exact ⟨hc, decide_eq_true rfl⟩

/-! ## Settled places -/

/-- The score the validator gives. -/
def scoreOf (validator : Validator σ) (candidates : List (CandidateCorridor σ))
    (p : ScoredCorridor σ) : σ :=
  (validator p.corridor (intervalRank candidates p.corridor.intervalKey)).getD ((0 : Int) : σ)

/-- The picked place of an interval is settled: with the candidates whose learned score is that of
the place in the plain order, those before the cap and those behind it. -/
def PlaceSettled (digest : String → Nat) (randomSeed topK : Int) (validator : Validator σ)
    (cap : Nat) (candidates : List (CandidateCorridor σ)) (i : Nat) (src dst : Anchor) : Prop :=
  let pool := candidatesFor candidates src dst
  let place := pickWithinTopK digest randomSeed i pool.length topK
  ∀ p, (tieBreakOrder false pool)[place]? = some p →
    Settled (fun q => onShortlist cap candidates q.corridor) (scoreOf validator candidates)
      ((0 : Int) : σ) plainKey (level learnedLead pool p) (place - rank learnedLead pool p)

theorem askedScore_eq_marked {candidates : List (CandidateCorridor σ)} {validator : Validator σ}
    (htotal : ∀ c i, ∃ s, validator c i = some s ∧ ((0 : Int) : σ) ≤ s ∧ s ≤ ((1 : Int) : σ))
    (cap : Nat) (p : ScoredCorridor σ) :
    p.corridor.withScore (askedScore validator cap candidates p.corridor) =
      marked (fun q => onShortlist cap candidates q.corridor) (scoreOf validator candidates) p := by
  obtain ⟨s, hs, -⟩ := htotal p.corridor (intervalRank candidates p.corridor.intervalKey)
  unfold marked askedScore scoreOf
  rw [p.scored, hs]
  rfl

omit [Score σ] in
theorem candidatesFor_mem {candidates : List (CandidateCorridor σ)} {src dst : Anchor}
    {p : ScoredCorridor σ} (h : p ∈ candidatesFor candidates src dst) : p.corridor ∈ candidates :=
  (mem_candidatesFor.mp h).1

section Pool

variable {candidates : List (CandidateCorridor σ)} {validator : Validator σ} {src dst : Anchor}

theorem scoreOf_nonneg
    (htotal : ∀ c i, ∃ s, validator c i = some s ∧ ((0 : Int) : σ) ≤ s ∧ s ≤ ((1 : Int) : σ))
    (p : ScoredCorridor σ) : ((0 : Int) : σ) ≤ scoreOf validator candidates p := by
  obtain ⟨s, hs, h0, -⟩ := htotal p.corridor (intervalRank candidates p.corridor.intervalKey)
  unfold scoreOf
  rw [hs]
  exact h0

/-- A pool sorted with the scores of a shortlist. -/
theorem sortBy_askedScore (laws : NegReverses σ)
    (htotal : ∀ c i, ∃ s, validator c i = some s ∧ ((0 : Int) : σ) ≤ s ∧ s ≤ ((1 : Int) : σ))
    (hnone : ∀ c ∈ candidates, c.validationScore = none) (cap : Nat) :
    sortBy (fun p => tieBreakKeyWithValidation
        (p.corridor.withScore (askedScore validator cap candidates p.corridor)))
      (candidatesFor candidates src dst) =
      sortBy (led learnedLead (shortKey (fun q => onShortlist cap candidates q.corridor)
        (scoreOf validator candidates) ((0 : Int) : σ) plainKey))
      (candidatesFor candidates src dst) := by
  refine sortBy_congr fun a ha b hb => ?_
  rw [askedScore_eq_marked htotal, askedScore_eq_marked htotal]
  exact markedKey_lt_iff laws (hnone _ (candidatesFor_mem ha)) (hnone _ (candidatesFor_mem hb))
    (scoreOf_nonneg htotal a) (scoreOf_nonneg htotal b)

/-- A pool sorted with all scores. -/
theorem sortBy_allScores (laws : NegReverses σ)
    (htotal : ∀ c i, ∃ s, validator c i = some s ∧ ((0 : Int) : σ) ≤ s ∧ s ≤ ((1 : Int) : σ))
    (hnone : ∀ c ∈ candidates, c.validationScore = none) :
    sortBy (fun p => tieBreakKeyWithValidation
        (p.corridor.withScore (askedScore validator candidates.length candidates p.corridor)))
      (candidatesFor candidates src dst) =
      sortBy (led learnedLead (fullKey (scoreOf validator candidates) plainKey))
      (candidatesFor candidates src dst) := by
  refine sortBy_congr fun a ha b hb => ?_
  have hmark : ∀ p ∈ candidatesFor candidates src dst,
      p.corridor.withScore (askedScore validator candidates.length candidates p.corridor) =
        marked (fun _ => true) (scoreOf validator candidates) p := by
    intro p hp
    rw [askedScore_eq_marked htotal]
    exact marked_congr (onShortlist_of_length_le (le_refl _) (candidatesFor_mem hp))
  rw [hmark a ha, hmark b hb, markedKey_lt_iff laws (hnone _ (candidatesFor_mem ha))
    (hnone _ (candidatesFor_mem hb)) (scoreOf_nonneg htotal a) (scoreOf_nonneg htotal b)]
  unfold led
  rw [Prod.Lex.toLex_lt_toLex]
  refine Iff.trans ?_ Prod.Lex.toLex_lt_toLex.symm
  refine or_congr Iff.rfl (and_congr_right fun _ => ?_)
  exact shortKey_all_lt_iff (scoreOf_nonneg htotal a) (scoreOf_nonneg htotal b)

theorem tieBreakOrder_eq_led (pool : List (ScoredCorridor σ)) :
    tieBreakOrder false pool = sortBy (led learnedLead plainKey) pool := by
  unfold tieBreakOrder
  rw [if_neg Bool.false_ne_true]
  refine sortBy_congr fun a _ b _ => ?_
  have hplain : ∀ p : ScoredCorridor σ, plainKey p = toLex (learnedLead p, restKey p) := fun _ => rfl
  show plainKey a < plainKey b ↔ _
  unfold led
  refine Iff.trans ?_ Prod.Lex.toLex_lt_toLex.symm
  by_cases h : learnedLead a = learnedLead b
  · simp [h]
  · rw [hplain a, hplain b, Prod.Lex.toLex_lt_toLex]
    simp [h]

/-- The capped and the full order of a pool have the same entry at a place exactly when the place is
settled. -/
theorem getElem?_capped_iff (laws : NegReverses σ)
    (htotal : ∀ c i, ∃ s, validator c i = some s ∧ ((0 : Int) : σ) ≤ s ∧ s ≤ ((1 : Int) : σ))
    (hids : (candidates.map (·.corridorId)).Nodup)
    (hnone : ∀ c ∈ candidates, c.validationScore = none) (cap : Nat) {place : Nat}
    {p : ScoredCorridor σ}
    (hp : (tieBreakOrder false (candidatesFor candidates src dst))[place]? = some p) :
    (sortBy (fun p => tieBreakKeyWithValidation
        (p.corridor.withScore (askedScore validator cap candidates p.corridor)))
      (candidatesFor candidates src dst))[place]? =
      (sortBy (fun p => tieBreakKeyWithValidation
        (p.corridor.withScore (askedScore validator candidates.length candidates p.corridor)))
      (candidatesFor candidates src dst))[place]? ↔
    Settled (fun q => onShortlist cap candidates q.corridor) (scoreOf validator candidates)
      ((0 : Int) : σ) plainKey (level learnedLead (candidatesFor candidates src dst) p)
      (place - rank learnedLead (candidatesFor candidates src dst) p) := by
  rw [tieBreakOrder_eq_led] at hp
  rw [sortBy_askedScore laws htotal hnone, sortBy_allScores laws htotal hnone]
  refine getElem?_shortlist_iff ?_ (fun c _ => scoreOf_nonneg htotal c) ?_ hp
  · exact nodup_map_of_key (candidatesFor_nodup hids src dst) corridorId_of_tieBreakKey
  · intro c hc d hd _ hin hout
    have hkey := (mem_candidatesFor.mp hc).2.trans (mem_candidatesFor.mp hd).2.symm
    exact tieBreakKey_lt_of_shortlist hids (candidatesFor_mem hc) (candidatesFor_mem hd) hkey hin
      hout

theorem getElem?_placeSettled (laws : NegReverses σ)
    (htotal : ∀ c i, ∃ s, validator c i = some s ∧ ((0 : Int) : σ) ≤ s ∧ s ≤ ((1 : Int) : σ))
    (hids : (candidates.map (·.corridorId)).Nodup)
    (hnone : ∀ c ∈ candidates, c.validationScore = none) (cap : Nat) (digest : String → Nat)
    (randomSeed topK : Int) (i : Nat) (src dst : Anchor) :
    (sortBy (fun p => tieBreakKeyWithValidation
        (p.corridor.withScore (askedScore validator cap candidates p.corridor)))
      (candidatesFor candidates src dst))[pickWithinTopK digest randomSeed i
        (candidatesFor candidates src dst).length topK]? =
      (sortBy (fun p => tieBreakKeyWithValidation
        (p.corridor.withScore (askedScore validator candidates.length candidates p.corridor)))
      (candidatesFor candidates src dst))[pickWithinTopK digest randomSeed i
        (candidatesFor candidates src dst).length topK]? ↔
    PlaceSettled digest randomSeed topK validator cap candidates i src dst := by
  unfold PlaceSettled
  dsimp only
  generalize pickWithinTopK digest randomSeed i (candidatesFor candidates src dst).length topK =
    place
  cases hp : (tieBreakOrder false (candidatesFor candidates src dst))[place]? with
  | none =>
    have hlen := List.getElem?_eq_none_iff.mp hp
    rw [(tieBreakOrder_perm _ _).length_eq] at hlen
    rw [List.getElem?_eq_none (by rw [(sortBy_perm _ _).length_eq]; exact hlen),
      List.getElem?_eq_none (by rw [(sortBy_perm _ _).length_eq]; exact hlen)]
    exact iff_of_true rfl fun p h => absurd h (by simp)
  | some p =>
    refine (getElem?_capped_iff laws htotal hids hnone cap hp).trans
      ⟨fun h p' hp' => ?_, fun h => h p rfl⟩
    rw [← Option.some.inj hp']
    exact h

end Pool

/-! ## Every interval -/

/-- Every picked place of the chain is settled. -/
def CapSettled (py : Python) (args : AssembleArgs σ) (validator : Validator σ) : Prop :=
  let candidates := candidatesOf py (corridorsQuery args.version args.corridors)
  ∀ i (ends : Anchor × Anchor),
    ((args.read py).anchors.zip (args.read py).anchors.tail)[i]? = some ends →
    PlaceSettled py.digest args.randomSeed args.topKCandidates validator
      (max args.topKCandidates validatorCandidateCap).toNat candidates i ends.1 ends.2

theorem sameChoices_iff (laws : NegReverses σ) (py : Python) {args : AssembleArgs σ}
    {validator : Validator σ} (hvalidator : args.validator = some validator)
    (htotal : ∀ c i, ∃ s, validator c i = some s ∧ ((0 : Int) : σ) ≤ s ∧ s ≤ ((1 : Int) : σ))
    (hids : (args.corridors.map (·.id)).Nodup) :
    SameChoices py.digest (args.read py) (args.readAll py validator) ↔
      CapSettled py args validator := by
  have hnone : ∀ c ∈ candidatesOf py (corridorsQuery args.version args.corridors),
      c.validationScore = none := fun _ hc => validationScore_of_mem_candidatesOf hc
  have hids' := candidatesOf_ids_nodup py args.version hids
  have hcapped : (args.read py).candidates =
      (candidatesOf py (corridorsQuery args.version args.corridors)).map fun c =>
        c.withScore (askedScore validator (max args.topKCandidates validatorCandidateCap).toNat
          (candidatesOf py (corridorsQuery args.version args.corridors)) c) := by
    rw [← scoreTop_eq_map hids']
    show validated args.validator args.topKCandidates _ = _
    rw [hvalidator]
    rfl
  have hall : (args.readAll py validator).candidates =
      (candidatesOf py (corridorsQuery args.version args.corridors)).map fun c =>
        c.withScore (askedScore validator
          (candidatesOf py (corridorsQuery args.version args.corridors)).length
          (candidatesOf py (corridorsQuery args.version args.corridors)) c) :=
    scoreTop_eq_map hids' validator _
  have hflag : (args.read py).useValidationTieBreak = true := by
    show args.validator.isSome = true
    rw [hvalidator]
    rfl
  unfold SameChoices CapSettled
  dsimp only
  refine forall_congr' fun i => ?_
  cases hends : ((args.read py).anchors.zip (args.read py).anchors.tail)[i]? with
  | none =>
    have hleft : choice py.digest (args.read py) i = none := choice_eq_none_of_ends hends
    have hright : choice py.digest (args.readAll py validator) i = none :=
      choice_eq_none_of_ends hends
    rw [hleft, hright]
    exact iff_of_true rfl fun ends h => by cases h
  | some ends =>
    have hright := @choice_withScore σ _ py.digest (args.readAll py validator) hflag _ hnone _ hall
      i ends hends
    have hplace := getElem?_placeSettled laws htotal hids' hnone
      (max args.topKCandidates validatorCandidateCap).toNat py.digest args.randomSeed
      args.topKCandidates i ends.1 ends.2
    rw [choice_withScore hflag hnone hcapped hends, hright]
    refine Iff.trans hplace ⟨fun h ends' hends' => ?_, fun h => h ends rfl⟩
    rw [← Option.some.inj hends']
    exact h

/-! ## Routes -/

/-- A route has the chosen corridors. -/
theorem getElem?_corridorIds {digest : String → Nat} {inputs : AssemblyInputs σ}
    {r : AssembledRoute σ} (hr : assembleRouteFromInputs digest inputs = .ok r) (i : Nat) :
    (r.intervals.map (·.chosen.corridorId))[i]? =
      (choice digest inputs i).map (·.corridor.corridorId) := by
  obtain ⟨hcount, hat⟩ := (routed_of_ok hr).2.intervals
  rw [List.getElem?_map]
  cases hiv : r.intervals[i]? with
  | none =>
    have hlen := List.getElem?_eq_none_iff.mp hiv
    have hends : (inputs.anchors.zip inputs.anchors.tail)[i]? = none := by
      rw [List.getElem?_eq_none_iff, List.length_zip, List.length_tail]
      omega
    unfold choice
    rw [hends]
    rfl
  | some iv =>
    obtain ⟨top, htop, hchosen⟩ := (hat i iv hiv).chosen
    rw [htop, Option.map_some, Option.map_some, hchosen]
    rfl

/-- Two routes of the same chain over the same candidates have the same corridors exactly when the
choices are the same. -/
theorem sameCorridors_iff {digest : String → Nat} {inputs inputs' : AssemblyInputs σ}
    {candidates : List (CandidateCorridor σ)} (hids : (candidates.map (·.corridorId)).Nodup)
    (hforget : inputs.candidates.map CandidateCorridor.forget = candidates)
    (hforget' : inputs'.candidates.map CandidateCorridor.forget = candidates)
    {r r' : AssembledRoute σ} (hr : assembleRouteFromInputs digest inputs = .ok r)
    (hr' : assembleRouteFromInputs digest inputs' = .ok r') :
    SameCorridors r r' ↔ SameChoices digest inputs inputs' := by
  have hmem : ∀ inputs : AssemblyInputs σ,
      inputs.candidates.map CandidateCorridor.forget = candidates →
      ∀ i top, choice digest inputs i = some top → top.corridor.forget ∈ candidates := by
    intro inputs hforget i top htop
    obtain ⟨ends, hends, hpick⟩ := Option.bind_eq_some_iff.mp htop
    rw [← hforget]
    exact List.mem_map_of_mem (choice_mem hends htop).1
  have hlist : SameCorridors r r' ↔
      ∀ i, (choice digest inputs i).map (·.corridor.corridorId) =
        (choice digest inputs' i).map (·.corridor.corridorId) := by
    unfold SameCorridors
    constructor
    · intro h i
      rw [← getElem?_corridorIds hr, ← getElem?_corridorIds hr', h]
    · intro h
      refine List.ext_getElem? fun i => ?_
      rw [getElem?_corridorIds hr, getElem?_corridorIds hr', h]
  rw [hlist]
  refine forall_congr' fun i => ?_
  cases hc : choice digest inputs i with
  | none =>
    cases hc' : choice digest inputs' i with
    | none => simp
    | some q => simp
  | some p =>
    cases hc' : choice digest inputs' i with
    | none => simp
    | some q =>
      simp only [Option.map_some, Option.some_inj]
      constructor
      · intro hid
        refine ScoredCorridor.ext ?_
        exact List.inj_on_of_nodup_map hids (hmem inputs hforget i p hc)
          (hmem inputs' hforget' i q hc') hid
      · intro h
        exact congrArg (fun p => p.corridor.corridorId) h

/-- With a validator that scores every candidate from zero to one, capping the pass keeps the
corridor of every interval exactly when every picked place is settled; the routes of the two runs
then have the same corridors. -/
theorem capHarmless_iff (laws : NegReverses σ) (py : Python) {args : AssembleArgs σ}
    {validator : Validator σ} (hvalidator : args.validator = some validator)
    (htotal : ∀ c i, ∃ s, validator c i = some s ∧ ((0 : Int) : σ) ≤ s ∧ s ≤ ((1 : Int) : σ))
    (hids : (args.corridors.map (·.id)).Nodup) :
    (SameChoices py.digest (args.read py) (args.readAll py validator) ↔
        CapSettled py args validator) ∧
      ∀ r r', assembleRouteFromInputs py.digest (args.read py) = .ok r →
        assembleRouteFromInputs py.digest (args.readAll py validator) = .ok r' →
        (SameCorridors r r' ↔ CapSettled py args validator) := by
  have hchoices := sameChoices_iff laws py hvalidator htotal hids
  refine ⟨hchoices, fun r r' hr hr' => ?_⟩
  have hnone : ∀ c ∈ candidatesOf py (corridorsQuery args.version args.corridors),
      c.validationScore = none := fun _ hc => validationScore_of_mem_candidatesOf hc
  have hids' := candidatesOf_ids_nodup py args.version hids
  rw [← hchoices]
  exact sameCorridors_iff hids' (map_forget_validated hnone args.validator args.topKCandidates)
    (map_forget_scoreTop hnone validator _) hr hr'

/-! ## Eleven ties -/

theorem negReverses_rat : NegReverses ℚ where
  neg_lt_neg _ _ := neg_lt_neg_iff
  neg_one_lt := by decide

/-- `json.loads` on a list of one cell. -/
def oneCellPython : Python where
  loads text :=
    if text = "[[0, 9, 0]]" then .ok (.arr [.arr [.int 0, .int 9, .int 0]])
    else .error .jsonDecodeError
  intOfText _ := none
  digest _ := 0

/-- A corridor of one cell with the learned score one half. -/
def tiedRow (id : Int) (srcTag : String) (srcOrder : Int) (dstTag : String) (dstOrder : Int) :
    StoredCorridor ℚ :=
  ⟨id, 1, srcTag, srcOrder, dstTag, dstOrder, "[[0, 9, 0]]", 1, false, none, some (1 / 2), none,
    "0.1.0"⟩

/-- Half marks for all, full marks for the eleventh. -/
def tiedValidator : Validator ℚ := fun c _ => some (if c.corridorId = 11 then 1 else 1 / 2)

/-- Eleven corridors to the checkpoint that differ in their id only, and one to the goal. -/
def tiedArgs : AssembleArgs ℚ where
  checkpoints := [⟨0, 0, "Spawn", some 0, some 9, some 0⟩,
    ⟨1, 1, "LinkedCheckpoint", some 4, some 9, some 4⟩, ⟨2, 0, "Goal", some 8, some 9, some 4⟩]
  corridors := ((List.range 11).map fun i =>
    tiedRow ((i : Int) + 1) "Spawn" 0 "LinkedCheckpoint" 1) ++
      [tiedRow 12 "LinkedCheckpoint" 1 "Goal" 0]
  mapId := 1
  validator := some tiedValidator

theorem tiedValidator_total : ∀ c i, ∃ s, tiedValidator c i = some s ∧
    ((0 : Int) : ℚ) ≤ s ∧ s ≤ ((1 : Int) : ℚ) := by
  intro c i
  unfold tiedValidator
  by_cases h : c.corridorId = 11
  · rw [if_pos h]
    exact ⟨1, rfl, by decide +kernel, by decide +kernel⟩
  · rw [if_neg h]
    exact ⟨1 / 2, rfl, by decide +kernel, by decide +kernel⟩

theorem tiedArgs_routes : ∃ r r',
    assembleRouteFromInputs oneCellPython.digest (tiedArgs.read oneCellPython) = .ok r ∧
      assembleRouteFromInputs oneCellPython.digest
        (tiedArgs.readAll oneCellPython tiedValidator) = .ok r' ∧
      r.intervals.map (·.chosen.corridorId) = [1, 12] ∧
      r'.intervals.map (·.chosen.corridorId) = [11, 12] := by
  have hcapped : (assembleRouteFromInputs oneCellPython.digest (tiedArgs.read oneCellPython)).map
      (fun r => r.intervals.map (·.chosen.corridorId)) = .ok [1, 12] := by decide +kernel
  have hall : (assembleRouteFromInputs oneCellPython.digest
      (tiedArgs.readAll oneCellPython tiedValidator)).map
      (fun r => r.intervals.map (·.chosen.corridorId)) = .ok [11, 12] := by decide +kernel
  cases hr : assembleRouteFromInputs oneCellPython.digest (tiedArgs.read oneCellPython) with
  | error e =>
    rw [hr] at hcapped
    cases hcapped
  | ok r =>
    cases hr' : assembleRouteFromInputs oneCellPython.digest
        (tiedArgs.readAll oneCellPython tiedValidator) with
    | error e =>
      rw [hr'] at hall
      cases hall
    | ok r' =>
      rw [hr] at hcapped
      rw [hr'] at hall
      exact ⟨r, r', rfl, rfl, Except.ok.inj hcapped, Except.ok.inj hall⟩

/-- The eleventh corridor is never validated, and the first one is built in its place. -/
theorem tiedArgs_differ : (∀ c i, ∃ s, tiedValidator c i = some s ∧
      ((0 : Int) : ℚ) ≤ s ∧ s ≤ ((1 : Int) : ℚ)) ∧
    ∃ r r', assembleRouteFromInputs oneCellPython.digest (tiedArgs.read oneCellPython) = .ok r ∧
      assembleRouteFromInputs oneCellPython.digest
        (tiedArgs.readAll oneCellPython tiedValidator) = .ok r' ∧ ¬ SameCorridors r r' := by
  obtain ⟨r, r', hr, hr', hids, hids'⟩ := tiedArgs_routes
  refine ⟨tiedValidator_total, r, r', hr, hr', fun h => ?_⟩
  unfold SameCorridors at h
  rw [hids, hids'] at h
  cases h

theorem tiedArgs_not_settled : ¬ CapSettled oneCellPython tiedArgs tiedValidator := by
  intro hsettled
  obtain ⟨r, r', hr, hr', hids, hids'⟩ := tiedArgs_routes
  have hsame := ((capHarmless_iff negReverses_rat oneCellPython rfl tiedValidator_total
    (by decide)).2 r r' hr hr').mpr hsettled
  unfold SameCorridors at hsame
  rw [hids, hids'] at hsame
  cases hsame

end TraxMania.Generation.Route
