import TraxMania.Learning.DrivenTransitions
import TraxMania.Learning.WhatIsBuilt
import Mathlib.Algebra.Field.Rat

/-
  Which routes the table of their own transitions supports in full.

  The miner joins the visits one after the other, the scorer joins PLACE tokens only. Between two
  PLACE tokens the route may go back to blocks that stand already: then the way of the second token
  starts at the last of these, but the scorer takes it for a way from the first.
-/

namespace TraxMania.Learning

open TraxMania.Driven TraxMania.Grid Lib Lib.PyText

/-! ## What the miner joins -/

section

variable {σ : Type} (placements : Dict Int (ExportPlacement σ))

/-- The joints of the transitions that have been counted. -/
def Mined (counts : Dict MinedTransition (Counter Int)) (K : JointKey) : Prop :=
  ∃ link, (⟨K, link⟩ : MinedTransition) ∈ counts.keys

/-- The block of a visit, as the miner reads it. -/
def visitEnd (v : BlockVisit) : Option DrivenEnd :=
  match v.state with
  | .onBlock => joinedEnd placements v
  | _ => none

/-- The joints of the blocks one after the other. -/
def consecutive (ends : List DrivenEnd) : List JointKey :=
  (ends.zip ends.tail).map fun e => jointOf e.1 e.2

theorem mined_countTransition (replayId : Int) (t : MinedTransition)
    (counts : Dict MinedTransition (Counter Int)) (K : JointKey) :
    Mined (countTransition replayId t counts) K ↔ K = t.joint ∨ Mined counts K := by
  unfold Mined countTransition
  simp only [Dict.mem_keys_upsert]
  constructor
  · rintro ⟨link, h | h⟩
    · exact .inl (by rw [← h])
    · exact .inr ⟨link, h⟩
  · rintro (h | ⟨link, h⟩)
    · exact ⟨t.link, .inl (by rw [h])⟩
    · exact ⟨link, .inr h⟩

theorem jointOf_types (f t : DrivenEnd) :
    (jointOf f t).fromType = f.blockType ∧ (jointOf f t).toType = t.blockType := by
  unfold jointOf
  split <;> exact ⟨rfl, rfl⟩

theorem extendRun_prevBlock (btype : Text) (s : MineState) :
    (extendRun btype s).prevBlock = s.prevBlock := by
  unfold extendRun
  split
  · split <;> rfl
  · rfl

theorem extendRun_pendingLink (btype : Text) (s : MineState) :
    (extendRun btype s).pendingLink = s.pendingLink := by
  unfold extendRun
  split
  · split <;> rfl
  · rfl

theorem extendRun_counts (btype : Text) (s : MineState) :
    (extendRun btype s).counts = s.counts := by
  unfold extendRun
  split
  · split <;> rfl
  · rfl

/-- A visit to a block counts its joint with the block before. -/
theorem mined_mineBlock (replayId : Int) (t : DrivenEnd) (s : MineState) {K : JointKey}
    (hK : K.fromType ≠ K.toType) :
    Mined (mineBlock replayId t s).counts K ↔
      Mined s.counts K ∨ ∃ f ∈ s.prevBlock, K = jointOf f t := by
  unfold mineBlock
  simp only [extendRun_prevBlock, extendRun_counts]
  cases s.prevBlock with
  | none => simp
  | some f =>
    simp only [Option.mem_some_iff, exists_eq_left']
    split
    · rw [mined_countTransition, or_comm]
    · next hsame =>
      have htypes := jointOf_types f t
      constructor
      · exact .inl
      · rintro (h | rfl)
        · exact h
        · rw [htypes.1, htypes.2] at hK
          exact absurd (.inl hK) hsame

/-- A visit to a block is one turn of `mineBlock`. -/
theorem mineVisit_of_some {v : BlockVisit} {t : DrivenEnd} (h : visitEnd placements v = some t)
    (replayId : Int) (s : MineState) :
    mineVisit placements replayId s v = mineBlock replayId t s := by
  unfold visitEnd at h
  unfold mineVisit
  cases hstate : v.state with
  | onBlock =>
    simp only [hstate] at h ⊢
    rw [h]
  | airborne =>
    rw [hstate] at h
    cases h
  | offSurface =>
    rw [hstate] at h
    cases h

/-- The label after a visit to no block: an unresolved one leaves it. -/
def linkAfter (link : Link) (v : BlockVisit) : Link :=
  match v.state with
  | .airborne => .jump
  | .offSurface => .gap
  | .onBlock => link

/-- A visit to no block moves the label only. -/
theorem mineVisit_of_none {v : BlockVisit} (h : visitEnd placements v = none) (replayId : Int)
    (s : MineState) :
    mineVisit placements replayId s v = { s with pendingLink := linkAfter s.pendingLink v } := by
  unfold visitEnd at h
  unfold mineVisit linkAfter
  cases hstate : v.state with
  | onBlock =>
    simp only [hstate] at h ⊢
    rw [h]
  | airborne => rfl
  | offSurface => rfl

/-- The visits of a replay, from a block `prevBlock` on. -/
theorem mined_foldl_mineVisit (replayId : Int) {K : JointKey} (hK : K.fromType ≠ K.toType)
    (visits : List BlockVisit) (s : MineState) :
    Mined (visits.foldl (mineVisit placements replayId) s).counts K ↔
      Mined s.counts K ∨
        K ∈ consecutive (s.prevBlock.toList ++ visits.filterMap (visitEnd placements)) := by
  induction visits generalizing s with
  | nil =>
    rw [List.foldl_nil, List.filterMap_nil, List.append_nil]
    cases s.prevBlock <;> simp [consecutive]
  | cons v visits ih =>
    rw [List.foldl_cons, ih]
    cases hvisit : visitEnd placements v with
    | none =>
      rw [mineVisit_of_none placements hvisit, List.filterMap_cons_none hvisit]
    | some t =>
      have hnew : (mineBlock replayId t s).prevBlock = some t := rfl
      rw [mineVisit_of_some placements hvisit, mined_mineBlock replayId t s hK, hnew,
        List.filterMap_cons_some hvisit]
      cases s.prevBlock with
      | none => simp
      | some f =>
        have hcons : consecutive (f :: t :: visits.filterMap (visitEnd placements)) =
            jointOf f t :: consecutive (t :: visits.filterMap (visitEnd placements)) := rfl
        simp only [Option.toList_some, List.singleton_append, hcons, List.mem_cons,
          Option.mem_some_iff, exists_eq_left']
        tauto

theorem mined_mineReplay (s : MineState) (replay : Int × List BlockVisit) {K : JointKey}
    (hK : K.fromType ≠ K.toType) :
    Mined (mineReplay placements s replay).counts K ↔
      Mined s.counts K ∨ K ∈ consecutive (replay.2.filterMap (visitEnd placements)) :=
  mined_foldl_mineVisit placements replay.1 hK replay.2 _

/-- The visits of a capture. -/
def captureOf (rows : List (Int × BlockVisit)) (replayId : Int) : List BlockVisit :=
  (rows.filter fun r => decide (r.1 = replayId)).map Prod.snd

theorem getD_byReplay (rows : List (Int × BlockVisit)) (replayId : Int) :
    ((byReplay rows).get? replayId).getD [] = captureOf rows replayId := by
  have h : ((byReplay rows).get? replayId).getD [] =
      ((Dict.empty : Dict Int (List BlockVisit)).get? replayId).getD [] ++
        captureOf rows replayId := Dict.getD_get?_foldl_group replayId
  exact h

/-- The joints of two types in the mined table: what some capture drives, block after block. -/
theorem mined_iff (rows : List (Int × BlockVisit)) {K : JointKey} (hK : K.fromType ≠ K.toType) :
    Mined (mineCounts placements rows).counts K ↔
      ∃ replayId, K ∈ consecutive ((captureOf rows replayId).filterMap (visitEnd placements)) := by
  have hfold : ∀ (items : List (Int × List BlockVisit)) (s : MineState),
      Mined (items.foldl (mineReplay placements) s).counts K ↔
        Mined s.counts K ∨
          ∃ e ∈ items, K ∈ consecutive (e.2.filterMap (visitEnd placements)) := by
    intro items
    induction items with
    | nil => simp
    | cons e items ih =>
      intro s
      rw [List.foldl_cons, ih, mined_mineReplay placements s e hK, List.exists_mem_cons_iff]
      exact or_assoc
  unfold mineCounts
  rw [hfold]
  constructor
  · rintro (⟨link, h⟩ | ⟨e, he, hmem⟩)
    · cases h
    · have hcapture := getD_byReplay rows e.1
      rw [Dict.get?_eq_some he] at hcapture
      exact ⟨e.1, hcapture ▸ hmem⟩
  · rintro ⟨replayId, hmem⟩
    rw [← getD_byReplay] at hmem
    cases hget : (byReplay rows).get? replayId with
    | none =>
      rw [hget] at hmem
      cases hmem
    | some visits =>
      rw [hget] at hmem
      exact .inr ⟨(replayId, visits), Dict.mem_items_of_get? hget, hmem⟩

/-! ## What the scorer joins -/

/-- The joint of `a` and `b` with the way from `w`, in the frame of `a`. -/
def measured (a w b : Int × ExportPlacement σ × Cell) : JointKey :=
  let way := rotateLocal (b.2.2.x - w.2.2.x) (b.2.2.z - w.2.2.z) (a.2.1.rotation.getD 0)
  ⟨a.2.1.blockType, b.2.1.blockType,
    some ((b.2.1.rotation.getD 0 - a.2.1.rotation.getD 0) % 4),
    way.1, b.2.2.y - w.2.2.y, way.2⟩

/-- Each block that is placed after `a`, with the block placed before it and the block visited
    before it, which is `w` at first. -/
def jointsFrom (seen : Finset Int) (a w : Int × ExportPlacement σ × Cell) :
    List (Int × ExportPlacement σ × Cell) →
      List ((Int × ExportPlacement σ × Cell) × (Int × ExportPlacement σ × Cell) ×
        (Int × ExportPlacement σ × Cell))
  | [] => []
  | e :: blocks =>
    if e.1 ∈ seen then jointsFrom seen a e blocks
    else (a, w, e) :: jointsFrom (insert e.1 seen) e e blocks

/-- The same, from the first block of a capture on. -/
def placedJoints : List (Int × ExportPlacement σ × Cell) →
    List ((Int × ExportPlacement σ × Cell) × (Int × ExportPlacement σ × Cell) ×
      (Int × ExportPlacement σ × Cell))
  | [] => []
  | e :: blocks => jointsFrom {e.1} e e blocks

/-- The PLACE token of a block after the cell `prev`. -/
def placeToken (prev : Option Cell) (e : Int × ExportPlacement σ × Cell) : Token :=
  .place e.2.1.blockType (delta prev e.2.2) (some (e.2.1.rotation.getD 0)) (some e.2.1.isFree)

/-- The PLACE tokens of the blocks that are not in `seen`. -/
def placesFrom (seen : Finset Int) (prev : Option Cell) :
    List (Int × ExportPlacement σ × Cell) → List Token
  | [] => []
  | e :: blocks =>
    if e.1 ∈ seen then placesFrom seen (some e.2.2) blocks
    else placeToken prev e :: placesFrom (insert e.1 seen) (some e.2.2) blocks

theorem filter_isPlace_context (s : ExportState) {token : Token} (h : token.isPlace = false)
    (count : ExportStats → ExportStats) :
    (s.context token count).tokens.filter Token.isPlace = s.tokens.filter Token.isPlace ∧
      (s.context token count).prevCell = s.prevCell ∧
      (s.context token count).placedSet = s.placedSet := by
  unfold ExportState.context
  split
  · exact ⟨rfl, rfl, rfl⟩
  · refine ⟨?_, rfl, rfl⟩
    rw [List.filter_append, List.filter_cons_of_neg (by simp [h]), List.filter_nil,
      List.append_nil]

theorem filter_isPlace_place (s : ExportState) (pid : Int) (p : ExportPlacement σ) (c : Cell) :
    (s.place pid p c).tokens.filter Token.isPlace =
      s.tokens.filter Token.isPlace ++ [placeToken s.prevCell (pid, p, c)] := by
  unfold ExportState.place
  rw [List.filter_append]
  rfl

variable [Metres σ]

theorem filter_isPlace_revisit (s : ExportState) (v : BlockVisit) (p : ExportPlacement σ) (i : Nat) :
    (s.revisit v p i).tokens.filter Token.isPlace = s.tokens.filter Token.isPlace := by
  unfold ExportState.revisit
  rw [List.filter_append]
  exact List.append_nil _

/-- What one visit does to the PLACE tokens: none from a block in `seen`. -/
theorem filter_isPlace_exportVisit (s : ExportState) (v : BlockVisit) {seen : Finset Int}
    (hseen : ∀ pid, (s.placedSet.get? pid).isSome ↔ pid ∈ seen) :
    match drivenBlock placements v with
    | none =>
      (exportVisit placements s v).tokens.filter Token.isPlace =
          s.tokens.filter Token.isPlace ∧
        (exportVisit placements s v).prevCell = s.prevCell ∧
        (exportVisit placements s v).placedSet = s.placedSet
    | some e =>
      (exportVisit placements s v).prevCell = some e.2.2 ∧
        if e.1 ∈ seen then
          (exportVisit placements s v).tokens.filter Token.isPlace =
              s.tokens.filter Token.isPlace ∧
            (exportVisit placements s v).placedSet = s.placedSet
        else
          (exportVisit placements s v).tokens.filter Token.isPlace =
              s.tokens.filter Token.isPlace ++ [placeToken s.prevCell e] ∧
            (exportVisit placements s v).placedSet =
              s.placedSet.upsert e.1 fun _ => s.placedOrder.length := by
  have hturn := turn_exportVisit placements s v
  generalize exportVisit placements s v = s' at hturn
  cases hturn with
  | jump hnone =>
    rw [hnone]
    exact filter_isPlace_context s rfl _
  | gap hnone =>
    rw [hnone]
    exact filter_isPlace_context s rfl _
  | skip hnone =>
    rw [hnone]
    exact ⟨rfl, rfl, rfl⟩
  | revisit pid p i hp hset hdriven =>
    have hmem : pid ∈ seen := (hseen pid).mp (by rw [hset]; rfl)
    have htokens := filter_isPlace_revisit s v p i
    have hprev : (s.revisit v p i).prevCell = (exportCell p.position).or s.prevCell := rfl
    rw [hdriven, hprev]
    cases exportCell p.position with
    | none => exact ⟨htokens, Option.none_or, rfl⟩
    | some c =>
      dsimp only [Option.map_some]
      rw [if_pos hmem]
      exact ⟨Option.some_or, htokens, rfl⟩
  | place e hdriven hp hc hset =>
    have hmem : e.1 ∉ seen := by
      intro hmem
      have hsome := (hseen e.1).mpr hmem
      rw [hset] at hsome
      cases hsome
    rw [hdriven]
    dsimp only
    rw [if_neg hmem]
    exact ⟨rfl, filter_isPlace_place s e.1 e.2.1 e.2.2, rfl⟩

/-- The PLACE tokens of the visits from a state on. -/
theorem filter_isPlace_exportVisits (visits : List BlockVisit) (s : ExportState)
    {seen : Finset Int} (hseen : ∀ pid, (s.placedSet.get? pid).isSome ↔ pid ∈ seen) :
    (visits.foldl (exportVisit placements) s).tokens.filter Token.isPlace =
      s.tokens.filter Token.isPlace ++
        placesFrom seen s.prevCell (visits.filterMap (drivenBlock placements)) := by
  induction visits generalizing s seen with
  | nil => exact (List.append_nil _).symm
  | cons v visits ih =>
    have hvisit := filter_isPlace_exportVisit placements s v hseen
    rw [List.foldl_cons]
    cases hv : drivenBlock placements v with
    | none =>
      simp only [hv] at hvisit
      obtain ⟨htokens, hprev, hset⟩ := hvisit
      rw [ih _ (by rw [hset]; exact hseen), htokens, hprev, List.filterMap_cons_none hv]
    | some e =>
      simp only [hv] at hvisit
      obtain ⟨hprev, hrest⟩ := hvisit
      rw [List.filterMap_cons_some hv, placesFrom]
      by_cases hmem : e.1 ∈ seen
      · rw [if_pos hmem] at hrest ⊢
        rw [ih _ (by rw [hrest.2]; exact hseen), hrest.1, hprev]
      · rw [if_neg hmem] at hrest ⊢
        have hnew : ∀ pid, ((exportVisit placements s v).placedSet.get? pid).isSome ↔
            pid ∈ insert e.1 seen := by
          intro pid
          rw [hrest.2, Dict.get?_upsert, Finset.mem_insert, ← hseen pid]
          split
          · next heq => simp [heq]
          · next hne => simp [hne]
        rw [ih _ hnew, hrest.1, hprev, List.append_assoc, List.singleton_append]

omit [Metres σ] in
/-- The joint of two PLACE tokens, for the blocks they were written from. -/
theorem placedJoint_placeToken (prev : Option Cell) (a w b : Int × ExportPlacement σ × Cell) :
    placedJoint (placeToken prev a) (placeToken (some w.2.2) b) =
      .ok (if a.2.1.blockType = b.2.1.blockType then none else some (measured a w b)) := by
  unfold placedJoint placeToken delta
  simp only
  split <;> rfl

/-- The joints of two different types, as the scorer measures them. -/
def scored (joints : List ((Int × ExportPlacement σ × Cell) × (Int × ExportPlacement σ × Cell) ×
    (Int × ExportPlacement σ × Cell))) : List JointKey :=
  joints.filterMap fun j =>
    if j.1.2.1.blockType = j.2.2.2.1.blockType then none else some (measured j.1 j.2.1 j.2.2)

omit [Metres σ] in
theorem mapM_placedJoint (blocks : List (Int × ExportPlacement σ × Cell)) (seen : Finset Int)
    (prev : Option Cell) (a w : Int × ExportPlacement σ × Cell) :
    (((placeToken prev a :: placesFrom seen (some w.2.2) blocks).zip
        (placesFrom seen (some w.2.2) blocks)).mapM fun ab => placedJoint ab.1 ab.2).map
      List.reduceOption = .ok (scored (jointsFrom seen a w blocks)) := by
  induction blocks generalizing seen prev a w with
  | nil => rfl
  | cons e blocks ih =>
    unfold placesFrom jointsFrom
    split
    · exact ih seen prev a e
    · have hrest := ih (insert e.1 seen) (some w.2.2) e e
      rw [List.zip_cons_cons, List.mapM_cons, placedJoint_placeToken]
      cases hm : ((placeToken (some w.2.2) e :: placesFrom (insert e.1 seen) (some e.2.2)
          blocks).zip (placesFrom (insert e.1 seen) (some e.2.2) blocks)).mapM
            fun ab => placedJoint ab.1 ab.2 with
      | error err =>
        rw [hm] at hrest
        cases hrest
      | ok ms =>
        rw [hm] at hrest
        have hms : List.reduceOption ms = scored (jointsFrom (insert e.1 seen) e e blocks) :=
          Except.ok.inj hrest
        have hcons : scored ((a, w, e) :: jointsFrom (insert e.1 seen) e e blocks) =
            (if a.2.1.blockType = e.2.1.blockType then none
              else some (measured a w e)).toList ++
              scored (jointsFrom (insert e.1 seen) e e blocks) := by
          unfold scored
          rw [List.filterMap_cons]
          split <;> next h => simp_all
        rw [hcons, ← hms]
        show Except.ok (List.reduceOption (_ :: ms)) = _
        split
        · rfl
        · rfl

/-- The scorer counts the joints of the placed blocks. -/
theorem scoredJoints_visitsToTokens (visits : List BlockVisit) (stats : ExportStats) :
    scoredJoints (visitsToTokens visits placements stats).1 =
      .ok (scored (placedJoints (visits.filterMap (drivenBlock placements)))) := by
  have hplaces : (visitsToTokens visits placements stats).1.filter Token.isPlace =
      placesFrom ∅ none (visits.filterMap (drivenBlock placements)) :=
    filter_isPlace_exportVisits placements visits (ExportState.start stats)
      (fun pid => by simp [ExportState.start, Dict.get?, Dict.empty])
  unfold scoredJoints
  rw [hplaces]
  cases visits.filterMap (drivenBlock placements) with
  | nil => rfl
  | cons e blocks =>
    have hnew : e.1 ∉ (∅ : Finset Int) := Finset.notMem_empty _
    rw [placesFrom, if_neg hnew]
    exact mapM_placedJoint blocks {e.1} none e e

/-! ## Full support -/

/-- All three shares are 1, or there is no joint. -/
def FullSupport : Except ScoreError (Option Support) → Prop
  | .ok none => True
  | .ok (some s) => s.pair = 1 ∧ s.rot = 1 ∧ s.exact = 1
  | .error _ => False

theorem share_eq_one_iff (q : JointKey → Bool) {joints : List JointKey} (h : joints ≠ []) :
    share q joints = 1 ↔ ∀ K ∈ joints, q K = true := by
  have hlength : (joints.length : ℚ) ≠ 0 := by
    rw [Nat.cast_ne_zero]
    exact fun h' => h (List.length_eq_zero_iff.mp h')
  unfold share
  rw [div_eq_one_iff_eq hlength, Nat.cast_inj]
  exact List.countP_eq_length

/-- The exact level decides. -/
theorem fullSupport_iff {tokens : List Token} {joints : List JointKey}
    (h : scoredJoints tokens = .ok joints) (minMaps : Nat)
    (mined : List (MinedTransition × Nat × Nat)) :
    FullSupport (score tokens (loadTables minMaps mined)) ↔
      ∀ K ∈ joints, K ∈ (loadTables minMaps mined).exact := by
  unfold score
  rw [h]
  cases joints with
  | nil => simp [Except.map, FullSupport]
  | cons K joints =>
    have hne : K :: joints ≠ [] := List.cons_ne_nil _ _
    have hexact := share_eq_one_iff (fun j => (loadTables minMaps mined).exact.contains j) hne
    simp only [List.contains_iff_mem] at hexact
    constructor
    · rintro ⟨-, -, hshare⟩
      exact hexact.mp hshare
    · intro hall
      refine ⟨(share_eq_one_iff _ hne).mpr fun j hj => ?_,
        (share_eq_one_iff _ hne).mpr fun j hj => ?_, hexact.mpr hall⟩
      · rw [List.contains_iff_mem]
        exact List.mem_map_of_mem (hall j hj)
      · rw [List.contains_iff_mem]
        exact List.mem_map_of_mem (hall j hj)

/-! ## Captures of grid placements -/

omit [Metres σ] in
/-- A visit to a block is one to a grid placement of the table. -/
def GridVisit (v : BlockVisit) : Prop :=
  v.state = .onBlock → ∃ pid p, v.placementId = some pid ∧ placements.get? pid = some p ∧
    p.isFree = false ∧ p.position.cell.isSome

/-- The blocks that a capture drives over. -/
def drivenBlocks (rows : List (Int × BlockVisit)) (replayId : Int) :
    List (Int × ExportPlacement σ × Cell) :=
  (captureOf rows replayId).filterMap (drivenBlock placements)

/-- A driven block, as the miner reads it. -/
def drivenEnd (e : Int × ExportPlacement σ × Cell) : DrivenEnd :=
  ⟨e.2.1.blockType, some e.2.2, e.2.1.rotation, e.2.1.isFree⟩

variable {placements} {v : BlockVisit} {e : Int × ExportPlacement σ × Cell}

/-- Miner and exporter read a visit to a grid placement alike. -/
theorem visitEnd_of_gridVisit (h : GridVisit placements v) :
    visitEnd placements v = (drivenBlock placements v).map drivenEnd ∧
      ∀ e ∈ drivenBlock placements v, e.2.1.isFree = false := by
  unfold visitEnd
  cases hstate : v.state with
  | airborne =>
    rw [drivenBlock, hstate]
    exact ⟨rfl, fun _ he => by cases he⟩
  | offSurface =>
    rw [drivenBlock, hstate]
    exact ⟨rfl, fun _ he => by cases he⟩
  | onBlock =>
    obtain ⟨pid, p, hpid, hp, hfree, hcell⟩ := h hstate
    obtain ⟨c, hc⟩ := Option.isSome_iff_exists.mp hcell
    have hexport : exportCell p.position = some c := by rw [exportCell, hc]
    rw [drivenBlock_onBlock hstate, hpid, Option.bind_some, hp, Option.bind_some, hexport]
    refine ⟨?_, fun e he => ?_⟩
    · simp only [joinedEnd, hpid, Option.bind_some, hp, Option.map_some, hc, drivenEnd]
    · rw [← Option.mem_some.mp he]
      exact hfree

omit [Metres σ] in
theorem jointOf_drivenEnd {u v : Int × ExportPlacement σ × Cell} (hu : u.2.1.isFree = false)
    (hv : v.2.1.isFree = false) : jointOf (drivenEnd u) (drivenEnd v) = measured u u v := by
  unfold jointOf drivenEnd
  rw [hu, hv]
  rfl

variable {rows : List (Int × BlockVisit)}

/-- What the miner joins in a capture. -/
theorem consecutive_visitEnd (h : ∀ r ∈ rows, GridVisit placements r.2) (replayId : Int) :
    consecutive ((captureOf rows replayId).filterMap (visitEnd placements)) =
      ((drivenBlocks placements rows replayId).zip
        (drivenBlocks placements rows replayId).tail).map fun e => measured e.1 e.1 e.2 := by
  have hgrid : ∀ v ∈ captureOf rows replayId, GridVisit placements v := by
    intro v hv
    obtain ⟨r, hr, rfl⟩ := List.mem_map.mp hv
    exact h r (List.mem_of_mem_filter hr)
  have hends : (captureOf rows replayId).filterMap (visitEnd placements) =
      (drivenBlocks placements rows replayId).map drivenEnd := by
    unfold drivenBlocks
    rw [List.map_filterMap]
    exact List.filterMap_congr fun v hv => (visitEnd_of_gridVisit (hgrid v hv)).1
  have hfree : ∀ e ∈ drivenBlocks placements rows replayId, e.2.1.isFree = false := by
    intro e he
    obtain ⟨v, hv, hve⟩ := List.mem_filterMap.mp he
    exact (visitEnd_of_gridVisit (hgrid v hv)).2 e hve
  unfold consecutive
  rw [hends, ← List.map_tail, List.zip_map, List.map_map]
  refine List.map_congr_left fun e he => ?_
  have hmem := List.of_mem_zip he
  exact jointOf_drivenEnd (hfree _ hmem.1) (hfree _ (List.mem_of_mem_tail hmem.2))

omit [Metres σ] in
/-- Where the blocks of a joint come from: the last two stand one after the other. -/
theorem mem_jointsFrom {blocks : List (Int × ExportPlacement σ × Cell)} {seen : Finset Int}
    {a w : Int × ExportPlacement σ × Cell}
    {j : (Int × ExportPlacement σ × Cell) × (Int × ExportPlacement σ × Cell) ×
      (Int × ExportPlacement σ × Cell)} (h : j ∈ jointsFrom seen a w blocks) :
    j.1 ∈ a :: blocks ∧ (j.2.1, j.2.2) ∈ (w :: blocks).zip blocks := by
  induction blocks generalizing seen a w with
  | nil => cases h
  | cons e blocks ih =>
    unfold jointsFrom at h
    rw [List.zip_cons_cons]
    split at h
    · obtain ⟨h1, h2⟩ := ih h
      refine ⟨?_, List.mem_cons_of_mem _ h2⟩
      rcases List.mem_cons.mp h1 with h1 | h1
      · exact h1 ▸ List.mem_cons_self
      · exact List.mem_cons_of_mem _ (List.mem_cons_of_mem _ h1)
    · rcases List.mem_cons.mp h with rfl | h
      · exact ⟨List.mem_cons_self, List.mem_cons_self⟩
      · obtain ⟨h1, h2⟩ := ih h
        exact ⟨List.mem_cons_of_mem _ h1, List.mem_cons_of_mem _ h2⟩

omit [Metres σ] in
theorem mem_placedJoints {blocks : List (Int × ExportPlacement σ × Cell)}
    {j : (Int × ExportPlacement σ × Cell) × (Int × ExportPlacement σ × Cell) ×
      (Int × ExportPlacement σ × Cell)} (h : j ∈ placedJoints blocks) :
    j.1 ∈ blocks ∧ (j.2.1, j.2.2) ∈ blocks.zip blocks.tail := by
  cases blocks with
  | nil => cases h
  | cons e blocks => exact mem_jointsFrom h

/-- A joint is driven: some capture of the rows makes it from one block to the next. -/
def DrivenJoint (placements : Dict Int (ExportPlacement σ)) (rows : List (Int × BlockVisit))
    (K : JointKey) : Prop :=
  ∃ replayId, ∃ e ∈ (drivenBlocks placements rows replayId).zip
    (drivenBlocks placements rows replayId).tail, measured e.1 e.1 e.2 = K

/-- Where the route goes back before it places a block of another type, some capture makes the
    joint that the scorer reads there. -/
def RevisitsDriven (placements : Dict Int (ExportPlacement σ)) (rows : List (Int × BlockVisit)) :
    Prop :=
  ∀ replayId, ∀ j ∈ placedJoints (drivenBlocks placements rows replayId), j.2.1.1 ≠ j.1.1 →
    j.1.2.1.blockType ≠ j.2.2.2.1.blockType →
    DrivenJoint placements rows (measured j.1 j.2.1 j.2.2)

/-- The unfiltered table holds the driven joints of two types. -/
theorem mem_exact_iff (h : ∀ r ∈ rows, GridVisit placements r.2) {K : JointKey}
    (hK : K.fromType ≠ K.toType) :
    K ∈ (loadTables 0 (mine placements rows).1).exact ↔ DrivenJoint placements rows K := by
  have htable : K ∈ (loadTables 0 (mine placements rows).1).exact ↔
      Mined (mineCounts placements rows).counts K := by
    simp only [loadTables, mine, Nat.zero_le, decide_true, List.filter_true, List.map_map,
      Mined, Dict.mem_keys, List.mem_map, Function.comp_apply, Prod.exists]
    constructor
    · rintro ⟨t, per, ht, rfl⟩
      exact ⟨t.link, per, ht⟩
    · rintro ⟨link, per, ht⟩
      exact ⟨_, per, ht, rfl⟩
  rw [htable, mined_iff placements rows hK]
  simp only [consecutive_visitEnd h, List.mem_map]
  rfl

/-- A joint without a revisit in it is driven. -/
theorem drivenJoint_of_not_revisit {replayId : Int}
    {j : (Int × ExportPlacement σ × Cell) × (Int × ExportPlacement σ × Cell) ×
      (Int × ExportPlacement σ × Cell)}
    (hj : j ∈ placedJoints (drivenBlocks placements rows replayId)) (h : j.2.1.1 = j.1.1) :
    DrivenJoint placements rows (measured j.1 j.2.1 j.2.2) := by
  have hknown : ∀ e ∈ drivenBlocks placements rows replayId,
      placements.get? e.1 = some e.2.1 ∧ exportCell e.2.1.position = some e.2.2 := by
    intro e he
    obtain ⟨v, -, hv⟩ := List.mem_filterMap.mp he
    exact drivenBlock_known hv
  obtain ⟨hplaced, hpair⟩ := mem_placedJoints hj
  obtain ⟨hp, hc⟩ := hknown _ hplaced
  obtain ⟨hp', hc'⟩ := hknown _ (List.of_mem_zip hpair).1
  have hplacement : j.2.1.2.1 = j.1.2.1 := by
    rw [h, hp] at hp'
    exact (Option.some.inj hp').symm
  have hcell : j.2.1.2.2 = j.1.2.2 := by
    rw [hplacement, hc] at hc'
    exact (Option.some.inj hc').symm
  have heq : j.2.1 = j.1 := Prod.ext h (Prod.ext hplacement hcell)
  refine ⟨replayId, (j.2.1, j.2.2), hpair, ?_⟩
  rw [heq]

/-- The captures are supported in full by the table mined from them if and only if the scorer meets
    no undriven joint behind a revisit. -/
theorem driven_route_supported_iff (h : ∀ r ∈ rows, GridVisit placements r.2)
    (stats : ExportStats) :
    (∀ replayId ∈ rows.map Prod.fst,
      FullSupport (score (visitsToTokens (captureOf rows replayId) placements stats).1
        (loadTables 0 (mine placements rows).1))) ↔ RevisitsDriven placements rows := by
  have hscored : ∀ replayId,
      FullSupport (score (visitsToTokens (captureOf rows replayId) placements stats).1
          (loadTables 0 (mine placements rows).1)) ↔
        ∀ j ∈ placedJoints (drivenBlocks placements rows replayId),
          j.1.2.1.blockType ≠ j.2.2.2.1.blockType →
          DrivenJoint placements rows (measured j.1 j.2.1 j.2.2) := by
    intro replayId
    rw [fullSupport_iff (scoredJoints_visitsToTokens placements _ stats)]
    unfold scored
    simp only [List.mem_filterMap]
    constructor
    · intro hall j hj htypes
      exact (mem_exact_iff h htypes).mp (hall _ ⟨j, hj, if_neg htypes⟩)
    · rintro hall K ⟨j, hj, hK⟩
      split at hK
      · cases hK
      · next htypes =>
        obtain rfl := Option.some.inj hK
        exact (mem_exact_iff h htypes).mpr (hall j hj htypes)
  simp only [hscored]
  constructor
  · intro hall replayId j hj _ htypes
    refine hall replayId ?_ j hj htypes
    by_contra hrow
    have hnone : captureOf rows replayId = [] := by
      unfold captureOf
      rw [List.map_eq_nil_iff, List.filter_eq_nil_iff]
      intro r hr hid
      exact hrow (List.mem_map.mpr ⟨r, hr, of_decide_eq_true hid⟩)
    unfold drivenBlocks at hj
    rw [hnone] at hj
    cases hj
  · intro hall replayId _ j hj htypes
    by_cases hrevisit : j.2.1.1 = j.1.1
    · exact drivenJoint_of_not_revisit hj hrevisit
    · exact hall replayId j hj hrevisit htypes

end

/-- Three blocks in a row, and one beside the first. -/
def cornerPlacements : Dict Int (ExportPlacement ℚ) where
  items :=
    [(1, ⟨"Start".toList, ⟨some ⟨0, 9, 0⟩, none⟩, some 0, false⟩),
      (2, ⟨"Road".toList, ⟨some ⟨1, 9, 0⟩, none⟩, some 0, false⟩),
      (3, ⟨"Ramp".toList, ⟨some ⟨2, 9, 0⟩, none⟩, some 1, false⟩),
      (4, ⟨"Turn".toList, ⟨some ⟨0, 9, 1⟩, none⟩, some 0, false⟩)]
  nodup := by decide

/-- The visits of one replay, without times. -/
def plainRows (pids : List Int) : List (Int × BlockVisit) :=
  pids.map fun pid => (7, ⟨.onBlock, some pid, 0, 0⟩)

theorem gridVisit_plainRows {pids : List Int} (h : ∀ pid ∈ pids, pid ∈ cornerPlacements.keys) :
    ∀ r ∈ plainRows pids, GridVisit cornerPlacements r.2 := by
  intro r hr _
  obtain ⟨pid, hpid, rfl⟩ := List.mem_map.mp hr
  obtain ⟨p, hp⟩ := Dict.mem_keys.mp (h pid hpid)
  have hgrid : ∀ e ∈ cornerPlacements.items, e.2.isFree = false ∧ e.2.position.cell.isSome := by
    decide
  exact ⟨pid, p, rfl, Dict.get?_eq_some hp, hgrid _ hp⟩

theorem driven_route_supported_row :
    FullSupport (score
      (visitsToTokens (captureOf (plainRows [1, 2, 3]) 7) cornerPlacements ExportStats.zero).1
      (loadTables 0 (mine cornerPlacements (plainRows [1, 2, 3])).1)) := by
  have hgrid : ∀ r ∈ plainRows [1, 2, 3], GridVisit cornerPlacements r.2 :=
    gridVisit_plainRows (by decide)
  have hrevisits : RevisitsDriven cornerPlacements (plainRows [1, 2, 3]) := by
    intro replayId j hj hrevisit
    exfalso
    by_cases hid : replayId = 7
    · subst hid
      have hids : ∀ j ∈ placedJoints (drivenBlocks cornerPlacements (plainRows [1, 2, 3]) 7),
          j.2.1.1 = j.1.1 := by
        decide
      exact hrevisit (hids j hj)
    · have hnone : drivenBlocks cornerPlacements (plainRows [1, 2, 3]) replayId = [] := by
        have h7 : ¬ (7 : Int) = replayId := fun h => hid h.symm
        simp [drivenBlocks, captureOf, plainRows, h7]
      rw [hnone] at hj
      cases hj
  exact (driven_route_supported_iff hgrid ExportStats.zero).mpr hrevisits 7 (by decide)

/-- The car comes back to the start before it drives on to the turn: the scorer asks for a joint of
    the road and the turn, which nobody drove. -/
theorem return_undriven :
    (∀ r ∈ plainRows [1, 2, 1, 4], GridVisit cornerPlacements r.2) ∧
      score (visitsToTokens (captureOf (plainRows [1, 2, 1, 4]) 7) cornerPlacements
          ExportStats.zero).1
        (loadTables 0 (mine cornerPlacements (plainRows [1, 2, 1, 4])).1) =
          .ok (some ⟨1 / 2, 1 / 2, 1 / 2, 2⟩) :=
  ⟨gridVisit_plainRows (by decide), by decide +kernel⟩

end TraxMania.Learning
