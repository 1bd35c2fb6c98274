import TraxMania.Generation.ValidatorCalls

/-
  The interval index the validator is told. It is the rank of the interval among the stored ones;
  the assembly loop counts along the anchor chain. The two agree when the stored intervals that sort
  before an interval without preceding it in the chain are as many as the intervals that precede it
  without being stored before it.
-/

namespace TraxMania.Generation.Route

open Lib Lib.SortBy

/-! ## The keys of a linked chain -/

/-- A linked chain: one `Spawn` at most, the linked checkpoints in ascending order, the `Goal`. -/
theorem keys_of_linked {rows : List CheckpointRow} (h : (detectAndOrderAnchors rows).1 = true) :
    ∃ spawn : Option Int, ∃ orders : List Int, ∃ goal : Int, orders.Pairwise (· < ·) ∧
      (detectAndOrderAnchors rows).2.map Anchor.key =
        (spawn.toList.map fun o => ("Spawn", o)) ++
          (orders.map fun o => ("LinkedCheckpoint", o)) ++ [("Goal", goal)] := by
  unfold detectAndOrderAnchors at h ⊢
  dsimp only at h ⊢
  have hgoal : (rows.foldl Detected.add Detected.none).goal.isSome = true := by
    unfold Detected.linked at h
    exact (Bool.and_eq_true_iff.mp h).2
  unfold Detected.ordered Detected.cpsSource
  rw [if_pos h]
  rw [Detected.foldl_add] at hgoal ⊢
  dsimp only [Detected.none, Option.none_or] at hgoal ⊢
  obtain ⟨goal, hg⟩ := Option.isSome_iff_exists.mp hgoal
  obtain ⟨row, hrow, rfl⟩ := Option.map_eq_some_iff.mp hg
  have htag : ∀ tag, ∀ r ∈ withTag tag rows, r.tag = tag := fun tag r hr =>
    of_decide_eq_true (List.mem_filter.mp hr).2
  have hgoalTag := htag "Goal" row (List.mem_of_mem_head? hrow)
  refine ⟨(withTag "Spawn" rows).head?.map CheckpointRow.waypointOrder,
    sortBy id (fillCps (withTag "LinkedCheckpoint" rows) Dict.empty).keys, row.waypointOrder,
    ?_, ?_⟩
  · have hnd := (sortBy_perm id (fillCps (withTag "LinkedCheckpoint" rows)
      Dict.empty).keys).nodup_iff.mpr (Dict.keys_nodup _)
    exact (sortBy_pairwise id _).imp₂ (fun a b hab hne => lt_of_le_of_ne hab hne) hnd
  · rw [hg, List.map_append, List.map_append, orderedCps_fillCps (htag "LinkedCheckpoint")]
    congr 1
    · congr 1
      cases hs : (withTag "Spawn" rows).head? with
      | none => rfl
      | some r =>
        have hspawn := htag "Spawn" r (List.mem_of_mem_head? hs)
        simp [Anchor.key, CheckpointRow.anchor, hspawn]
    · simp [Anchor.key, CheckpointRow.anchor, hgoalTag]

theorem anchorKeys_nodup {rows : List CheckpointRow} (h : (detectAndOrderAnchors rows).1 = true) :
    ((detectAndOrderAnchors rows).2.map Anchor.key).Nodup := by
  obtain ⟨spawn, orders, goal, horders, hkeys⟩ := keys_of_linked h
  rw [hkeys]
  have hcps : (orders.map fun o => ("LinkedCheckpoint", o)).Nodup := by
    rw [List.Nodup, List.pairwise_map]
    exact horders.imp fun hlt heq => ne_of_lt hlt (Prod.mk.inj heq).2
  cases spawn with
  | none => simp [List.nodup_append, hcps]
  | some s => simp [hcps, List.nodup_append]

/-- No interval comes twice in a linked chain. -/
theorem lookupKeys_nodup {rows : List CheckpointRow} (h : (detectAndOrderAnchors rows).1 = true) :
    (lookupKeys (detectAndOrderAnchors rows).2).Nodup := by
  have htail : ((lookupKeys (detectAndOrderAnchors rows).2).map Prod.snd).Nodup := by
    have hsnd : (lookupKeys (detectAndOrderAnchors rows).2).map Prod.snd =
        ((detectAndOrderAnchors rows).2.map Anchor.key).tail := by
      unfold lookupKeys
      rw [List.map_map, ← List.map_tail]
      have hzip : ((detectAndOrderAnchors rows).2.zip (detectAndOrderAnchors rows).2.tail).map
          Prod.snd = (detectAndOrderAnchors rows).2.tail := List.map_snd_zip (by simp)
      conv_rhs => rw [← hzip, List.map_map]
      rfl
    rw [hsnd]
    exact (anchorKeys_nodup h).tail
  exact List.Nodup.of_map Prod.snd htail

/-! ## Rank and place -/

variable {σ : Type}

/-- The intervals before place `i` of the chain that are not stored before `key`. -/
def missedBefore (candidates : List (CandidateCorridor σ)) (anchors : List Anchor) (i : Nat)
    (key : IntervalKey) : Nat :=
  ((lookupKeys anchors).take i).countP fun k =>
    !(decide (k ∈ storedIntervals candidates) && decide (intervalOrderKey k < intervalOrderKey key))

/-- The stored intervals before `key` that are not before place `i` of the chain. -/
def straysBefore (candidates : List (CandidateCorridor σ)) (anchors : List Anchor) (i : Nat)
    (key : IntervalKey) : Nat :=
  (storedIntervals candidates).countP fun k =>
    decide (intervalOrderKey k < intervalOrderKey key) && !decide (k ∈ (lookupKeys anchors).take i)

/-- Counting the common entries of two lists in the one or in the other. -/
theorem countP_mem_comm {α : Type*} [BEq α] [LawfulBEq α] {xs ys : List α} (hx : xs.Nodup)
    (hy : ys.Nodup) (p : α → Bool) :
    (xs.countP fun a => p a && decide (a ∈ ys)) = ys.countP fun a => decide (a ∈ xs) && p a := by
  rw [List.countP_eq_length_filter, List.countP_eq_length_filter]
  refine List.Perm.length_eq ((List.perm_ext_iff_of_nodup (hx.filter _) (hy.filter _)).mpr ?_)
  intro a
  simp only [List.mem_filter, Bool.and_eq_true, decide_eq_true_eq]
  tauto

theorem countP_and_add {α : Type*} (xs : List α) (p q : α → Bool) :
    xs.countP p = (xs.countP fun a => p a && q a) + xs.countP fun a => p a && !q a := by
  rw [List.countP_eq_countP_filter_add xs p q, List.countP_filter, List.countP_filter]

/-- The rank of an interval is its place exactly when as many strays as missed intervals stand
before it. -/
theorem intervalRank_eq_iff {candidates : List (CandidateCorridor σ)} {anchors : List Anchor}
    (hchain : (lookupKeys anchors).Nodup) {i : Nat} {key : IntervalKey}
    (hi : (lookupKeys anchors)[i]? = some key) :
    intervalRank candidates key = i ↔
      straysBefore candidates anchors i key = missedBefore candidates anchors i key := by
  have hlen : ((lookupKeys anchors).take i).length = i := by
    obtain ⟨hlt, -⟩ := List.getElem?_eq_some_iff.mp hi
    rw [List.length_take]
    omega
  have hrank := countP_and_add (storedIntervals candidates)
    (fun k => decide (intervalOrderKey k < intervalOrderKey key))
    (fun k => decide (k ∈ (lookupKeys anchors).take i))
  have hplace := countP_and_add ((lookupKeys anchors).take i) (fun _ => true)
    (fun k => decide (k ∈ storedIntervals candidates) &&
      decide (intervalOrderKey k < intervalOrderKey key))
  have hcommon := countP_mem_comm (storedIntervals_nodup candidates)
    (hchain.sublist (List.take_sublist i _))
    fun k => decide (intervalOrderKey k < intervalOrderKey key)
  simp only [List.countP_true, Bool.true_and] at hplace
  unfold intervalRank straysBefore missedBefore
  omega

/-! ## The index of every call -/

variable [Score σ]

/-- The validator is told where the assembly loop visits the interval. -/
def RightIndex (anchors : List Anchor) (candidates : List (CandidateCorridor σ)) (cap : Nat) :
    Prop :=
  ∀ call ∈ validatorCalls candidates cap, ∀ i,
    (lookupKeys anchors)[i]? = some call.1.1.intervalKey → call.2 = i

/-- The interval has a candidate the validator is asked about. -/
def Asked (candidates : List (CandidateCorridor σ)) (cap : Nat) (key : IntervalKey) : Prop :=
  ∃ c ∈ intervalShortlist cap candidates key, c.learnedCorridorScore.isSome = true

theorem asked_iff {candidates : List (CandidateCorridor σ)} {cap : Nat} {key : IntervalKey} :
    Asked candidates cap key ↔ ∃ call ∈ validatorCalls candidates cap,
      call.1.1.intervalKey = key ∧ call.2 = intervalRank candidates key := by
  unfold Asked
  constructor
  · intro h
    obtain ⟨c, hc, hscored⟩ := h
    rw [← map_fst_objectShortlist] at hc
    obtain ⟨o, ho, rfl⟩ := List.mem_map.mp hc
    have hkey := (mem_of_mem_objectShortlist ho).2
    rw [← hkey] at ho ⊢
    exact ⟨(o, _), mem_validatorCalls.mpr ⟨ho, hscored, rfl⟩, rfl, rfl⟩
  · intro h
    obtain ⟨call, hcall, hkey, -⟩ := h
    obtain ⟨hmem, hscored, -⟩ := mem_validatorCalls.mp hcall
    rw [hkey] at hmem
    refine ⟨call.1.1, ?_, hscored⟩
    rw [← map_fst_objectShortlist]
    exact List.mem_map.mpr ⟨call.1, hmem, rfl⟩

/-- On a linked map the validator is told the right index exactly when, before every interval of
the chain it is asked about, as many stored intervals are strays as chain intervals are missed. -/
theorem rightIndex_iff {rows : List CheckpointRow} (hlinked : (detectAndOrderAnchors rows).1 = true)
    (candidates : List (CandidateCorridor σ)) (cap : Nat) :
    RightIndex (detectAndOrderAnchors rows).2 candidates cap ↔
      ∀ i key, (lookupKeys (detectAndOrderAnchors rows).2)[i]? = some key →
        Asked candidates cap key →
        straysBefore candidates (detectAndOrderAnchors rows).2 i key =
          missedBefore candidates (detectAndOrderAnchors rows).2 i key := by
  have hchain := lookupKeys_nodup hlinked
  constructor
  · intro h i key hi hasked
    obtain ⟨call, hcall, hkey, hidx⟩ := asked_iff.mp hasked
    rw [← intervalRank_eq_iff hchain hi, ← hidx]
    exact h call hcall i (by rw [hkey]; exact hi)
  · intro h call hcall i hi
    obtain ⟨-, -, hidx⟩ := mem_validatorCalls.mp hcall
    have hasked := asked_iff.mpr ⟨call, hcall, rfl, hidx⟩
    rw [hidx, intervalRank_eq_iff hchain hi]
    exact h i _ hi hasked

/-! ## A stray interval -/

/-- A start, a linked checkpoint and a goal. -/
def strayRows : List CheckpointRow :=
  [⟨0, 0, "Spawn", none, none, none⟩, ⟨1, 1, "LinkedCheckpoint", none, none, none⟩,
    ⟨2, 0, "Goal", none, none, none⟩]

/-- A corridor for each of the two intervals, and one from the start to the goal. -/
def strayCandidates : List (CandidateCorridor ℚ) :=
  [oneCell 1 ⟨"Spawn", 0, none⟩ ⟨"LinkedCheckpoint", 1, none⟩ (1 / 2),
    oneCell 2 ⟨"LinkedCheckpoint", 1, none⟩ ⟨"Goal", 0, none⟩ (1 / 2),
    oneCell 3 ⟨"Spawn", 0, none⟩ ⟨"Goal", 0, none⟩ (1 / 2)]

theorem strayRows_linked : (detectAndOrderAnchors strayRows).1 = true := by decide +kernel

/-- The corridor from the start to the goal sorts first and moves the others up by one. -/
theorem strayCandidates_not_rightIndex :
    (detectAndOrderAnchors strayRows).1 = true ∧
      ¬ RightIndex (detectAndOrderAnchors strayRows).2 strayCandidates 10 := by
  refine ⟨strayRows_linked, fun h => ?_⟩
  have hcalls : (validatorCalls strayCandidates 10).map (fun call =>
      (call.1.1.intervalKey, call.2)) = [((("Spawn", 0), ("Goal", 0)), 0),
        ((("Spawn", 0), ("LinkedCheckpoint", 1)), 1), ((("LinkedCheckpoint", 1), ("Goal", 0)), 2)] := by
    decide +kernel
  have hmem : ((("Spawn", 0), ("LinkedCheckpoint", 1)), 1) ∈
      (validatorCalls strayCandidates 10).map fun call => (call.1.1.intervalKey, call.2) := by
    rw [hcalls]
    exact List.mem_cons_of_mem _ List.mem_cons_self
  obtain ⟨call, hcall, heq⟩ := List.mem_map.mp hmem
  obtain ⟨hkey, hidx⟩ := Prod.mk.inj heq
  have hfirst : (lookupKeys (detectAndOrderAnchors strayRows).2)[0]? =
      some (("Spawn", 0), ("LinkedCheckpoint", 1)) := by decide +kernel
  have hzero := h call hcall 0 (by rw [hkey]; exact hfirst)
  omega

theorem rightIndex_iff_stray :
    RightIndex (detectAndOrderAnchors strayRows).2 strayCandidates 10 ↔
      ∀ i key, (lookupKeys (detectAndOrderAnchors strayRows).2)[i]? = some key →
        Asked strayCandidates 10 key →
        straysBefore strayCandidates (detectAndOrderAnchors strayRows).2 i key =
          missedBefore strayCandidates (detectAndOrderAnchors strayRows).2 i key :=
  rightIndex_iff strayRows_linked strayCandidates 10

end TraxMania.Generation.Route
