import TraxMania.Learning.DrivenSupport
import TraxMania.Generation.DrivenPrior
import Mathlib.Data.Set.Card

/-
  What the labels of the mined transitions say about the stretch between two blocks, and how many
  maps their counts stand for.

  Every visit to no block overwrites the pending label, and a transition is counted once for each
  replay that makes it.
-/

namespace TraxMania.Learning

open TraxMania.Generation Lib Lib.PyText

/-! ## Stretches -/

section

variable {σ : Type} (placements : Dict Int (ExportPlacement σ))

/-- The visits end with one to the block `f` and then `mid`, all of them to no block. -/
def Leaves (before : List BlockVisit) (f : DrivenEnd) (mid : List BlockVisit) : Prop :=
  ∃ pre v, before = pre ++ v :: mid ∧ visitEnd placements v = some f ∧
    ∀ u ∈ mid, visitEnd placements u = none

/-- Somewhere in the visits the car goes from the block `f` to the block `t`, with `mid` between. -/
def Stretch (visits : List BlockVisit) (f : DrivenEnd) (mid : List BlockVisit) (t : DrivenEnd) :
    Prop :=
  ∃ before w post, visits = before ++ w :: post ∧ Leaves placements before f mid ∧
    visitEnd placements w = some t

/-- What a label is to say of a stretch: off-surface wins, then airborne. -/
def meantLink (mid : List BlockVisit) : Link :=
  if .offSurface ∈ mid.map BlockVisit.state then .gap
  else if .airborne ∈ mid.map BlockVisit.state then .jump
  else .contact

/-- The transitions that `mine` counts. -/
def Counts (T : MinedTransition) : Prop :=
  T.joint.fromType ≠ T.joint.toType ∨ T.link ≠ .contact

/-- The replay makes the transition. -/
def Makes (rows : List (Int × BlockVisit)) (T : MinedTransition) (replayId : Int) : Prop :=
  ∃ f mid t, Stretch placements (captureOf rows replayId) f mid t ∧
    T = ⟨jointOf f t, meantLink mid⟩

/-! ## The label of a stretch -/

/-- The label after a stretch. -/
def linkOf (mid : List BlockVisit) : Link := mid.foldl linkAfter .contact

/-- The visits of a stretch that set the label. -/
def labelling (mid : List BlockVisit) : List BlockVisit :=
  mid.filter fun u => decide (u.state ≠ .onBlock)

/-- The last one sets it. -/
theorem linkOf_eq (mid : List BlockVisit) :
    linkOf mid = ((labelling mid).getLast?.map (linkAfter .contact)).getD .contact := by
  induction mid using List.reverseRecOn with
  | nil => rfl
  | append_singleton mid v ih =>
    unfold linkOf labelling at ih ⊢
    rw [List.foldl_append, List.foldl_cons, List.foldl_nil, List.filter_append]
    by_cases hv : v.state = .onBlock
    · rw [List.filter_cons_of_neg (by simp [hv]), List.filter_nil, List.append_nil, ← ih]
      unfold linkAfter
      rw [hv]
    · rw [List.filter_cons_of_pos (by simp [hv]), List.filter_nil, List.getLast?_concat]
      unfold linkAfter
      cases hstate : v.state with
      | onBlock => exact absurd hstate hv
      | airborne => simp [hstate]
      | offSurface => simp [hstate]

/-- The last visit that is airborne or off the surface is off the surface, if any is. -/
def GapLast (mid : List BlockVisit) : Prop :=
  .offSurface ∈ mid.map BlockVisit.state →
    ∃ u ∈ (labelling mid).getLast?, u.state = .offSurface

theorem mem_labelling {mid : List BlockVisit} {u : BlockVisit} :
    u ∈ labelling mid ↔ u ∈ mid ∧ u.state ≠ .onBlock := by
  unfold labelling
  rw [List.mem_filter, decide_eq_true_iff]

/-- The label is `contact` where nothing but unresolved visits lies between. -/
theorem linkOf_eq_contact_iff (mid : List BlockVisit) :
    linkOf mid = .contact ↔ ∀ u ∈ mid, u.state = .onBlock := by
  rw [linkOf_eq]
  constructor
  · intro hlink u hu
    by_contra hstate
    have hne : labelling mid ≠ [] := List.ne_nil_of_mem (mem_labelling.mpr ⟨hu, hstate⟩)
    rw [List.getLast?_eq_some_getLast hne, Option.map_some, Option.getD_some] at hlink
    have hlast := (mem_labelling.mp (List.getLast_mem hne)).2
    unfold linkAfter at hlink
    cases hs : ((labelling mid).getLast hne).state with
    | onBlock => exact hlast hs
    | airborne => simp [hs] at hlink
    | offSurface => simp [hs] at hlink
  · intro hall
    have hnil : labelling mid = [] := by
      refine List.eq_nil_iff_forall_not_mem.mpr fun u hu => ?_
      exact (mem_labelling.mp hu).2 (hall u (mem_labelling.mp hu).1)
    rw [hnil]
    rfl

/-- A label other than `contact` is that of the last labelling visit. -/
theorem linkOf_eq_gap_iff (mid : List BlockVisit) :
    linkOf mid = .gap ↔ ∃ u ∈ (labelling mid).getLast?, u.state = .offSurface := by
  rw [linkOf_eq]
  cases hlast : (labelling mid).getLast? with
  | none => simp
  | some u =>
    have hstate := (mem_labelling.mp (List.mem_of_getLast? hlast)).2
    simp only [Option.map_some, Option.getD_some, Option.mem_some_iff, exists_eq_left', linkAfter]
    cases hs : u.state with
    | onBlock => exact absurd hs hstate
    | airborne => simp
    | offSurface => simp

theorem gapLast_iff (mid : List BlockVisit) :
    GapLast mid ↔ (.offSurface ∈ mid.map BlockVisit.state → linkOf mid = .gap) := by
  rw [linkOf_eq_gap_iff]
  exact Iff.rfl

/-- Without a visit off the surface the label is `jump` behind any airborne one. -/
theorem linkOf_of_no_gap {mid : List BlockVisit}
    (h : .offSurface ∉ mid.map BlockVisit.state) : linkOf mid = meantLink mid := by
  unfold meantLink
  rw [if_neg h]
  have hstates : ∀ u ∈ mid, u.state ≠ .offSurface := by
    intro u hu hstate
    exact h (List.mem_map.mpr ⟨u, hu, hstate⟩)
  by_cases hair : .airborne ∈ mid.map BlockVisit.state
  · rw [if_pos hair]
    obtain ⟨v, hv, hstate⟩ := List.mem_map.mp hair
    have hcontact : linkOf mid ≠ .contact := by
      intro hlink
      have := (linkOf_eq_contact_iff mid).mp hlink v hv
      rw [hstate] at this
      cases this
    have hgap : linkOf mid ≠ .gap := by
      intro hlink
      obtain ⟨u, hu, hoff⟩ := (linkOf_eq_gap_iff mid).mp hlink
      exact hstates u (mem_labelling.mp (List.mem_of_getLast? hu)).1 hoff
    cases hlink : linkOf mid with
    | contact => exact absurd hlink hcontact
    | jump => rfl
    | gap => exact absurd hlink hgap
  · rw [if_neg hair]
    refine (linkOf_eq_contact_iff mid).mpr fun u hu => ?_
    cases hs : u.state with
    | onBlock => rfl
    | airborne => exact absurd (List.mem_map.mpr ⟨u, hu, hs⟩) hair
    | offSurface => exact absurd hs (hstates u hu)

theorem linkOf_eq_meantLink {mid : List BlockVisit} (h : GapLast mid) :
    linkOf mid = meantLink mid := by
  by_cases hoff : .offSurface ∈ mid.map BlockVisit.state
  · unfold meantLink
    rw [if_pos hoff]
    exact (gapLast_iff mid).mp h hoff
  · exact linkOf_of_no_gap hoff

/-! ## What one visit counts -/

/-- The transition has been counted for the replay. -/
def Counted (counts : Dict MinedTransition (Counter Int)) (T : MinedTransition) (replayId : Int) :
    Prop :=
  ∃ per, counts.get? T = some per ∧ replayId ∈ per.keys

theorem counted_countTransition (replayId replayId' : Int) (T T' : MinedTransition)
    (counts : Dict MinedTransition (Counter Int)) :
    Counted (countTransition replayId' T' counts) T replayId ↔
      Counted counts T replayId ∨ replayId = replayId' ∧ T = T' := by
  unfold Counted countTransition Counter.bump
  rw [Dict.get?_upsert]
  by_cases hT : T = T'
  · subst hT
    rw [if_pos rfl]
    simp only [Option.some.injEq, exists_eq_left', Dict.mem_keys_upsert, and_true]
    cases counts.get? T with
    | none => simp [Dict.empty, Dict.keys]
    | some per => simp [or_comm]
  · rw [if_neg hT]
    simp only [hT, and_false, or_false]

/-- A visit counts a transition when it comes to a block from another. -/
theorem counted_mineVisit (replayId replayId' : Int) (T : MinedTransition) (s : MineState)
    (v : BlockVisit) :
    Counted (mineVisit placements replayId' s v).counts T replayId ↔
      Counted s.counts T replayId ∨ replayId = replayId' ∧ Counts T ∧
        ∃ t ∈ visitEnd placements v, ∃ f ∈ s.prevBlock, T = ⟨jointOf f t, s.pendingLink⟩ := by
  cases hv : visitEnd placements v with
  | none =>
    rw [mineVisit_of_none placements hv]
    simp
  | some t =>
    rw [mineVisit_of_some placements hv]
    unfold mineBlock
    simp only [extendRun_prevBlock, extendRun_pendingLink, extendRun_counts]
    cases s.prevBlock with
    | none => simp
    | some f =>
      have htypes := jointOf_types f t
      simp only [Option.mem_some_iff, exists_eq_left']
      split
      · next hcounts =>
        rw [counted_countTransition]
        have hT : T = ⟨jointOf f t, s.pendingLink⟩ → Counts T := by
          rintro rfl
          unfold Counts
          rw [htypes.1, htypes.2]
          exact hcounts
        have hand := and_iff_right_of_imp hT
        rw [hand]
      · next hcounts =>
        have hT : ¬ (replayId = replayId' ∧ Counts T ∧ T = ⟨jointOf f t, s.pendingLink⟩) := by
          rintro ⟨-, hT, rfl⟩
          unfold Counts at hT
          rw [htypes.1, htypes.2] at hT
          exact hcounts hT
        rw [or_iff_left hT]

/-- A run over the visits counts what one of its turns counts. -/
theorem counted_foldl_mineVisit (replayId replayId' : Int) (T : MinedTransition) (s : MineState)
    (visits : List BlockVisit) :
    Counted (visits.foldl (mineVisit placements replayId') s).counts T replayId ↔
      Counted s.counts T replayId ∨ replayId = replayId' ∧ Counts T ∧
        ∃ before w post, visits = before ++ w :: post ∧ ∃ t ∈ visitEnd placements w,
          ∃ f ∈ (before.foldl (mineVisit placements replayId') s).prevBlock,
            T = ⟨jointOf f t, (before.foldl (mineVisit placements replayId') s).pendingLink⟩ := by
  induction visits using List.reverseRecOn with
  | nil => simp
  | append_singleton visits v ih =>
    rw [List.foldl_append, List.foldl_cons, List.foldl_nil, counted_mineVisit, ih, or_assoc,
      ← and_or_left, ← and_or_left]
    refine or_congr_right (and_congr_right' (and_congr_right' ?_))
    constructor
    · rintro (⟨before, w, post, rfl, hmade⟩ | hmade)
      · exact ⟨before, w, post ++ [v], by simp, hmade⟩
      · exact ⟨visits, v, [], rfl, hmade⟩
    · rintro ⟨before, w, post, heq, hmade⟩
      rcases List.eq_nil_or_concat post with rfl | ⟨post, u, rfl⟩
      · obtain ⟨rfl, hw⟩ := List.append_inj' heq rfl
        obtain rfl := List.head_eq_of_cons_eq hw
        exact .inr hmade
      · have heq' : visits ++ [v] = before ++ w :: post ++ [u] := by
          rw [heq, List.append_assoc, List.cons_append, List.concat_eq_append]
        exact .inl ⟨before, w, post, (List.append_inj' heq' rfl).1, hmade⟩

/-! ## The state before a visit -/

theorem leaves_concat_of_none {before : List BlockVisit} {v : BlockVisit} {f : DrivenEnd}
    {mid : List BlockVisit} (hv : visitEnd placements v = none) :
    Leaves placements (before ++ [v]) f mid ↔
      ∃ mid', mid = mid' ++ [v] ∧ Leaves placements before f mid' := by
  constructor
  · rintro ⟨pre, w, heq, hw, hmid⟩
    rcases List.eq_nil_or_concat mid with rfl | ⟨mid', u, rfl⟩
    · obtain ⟨-, hw'⟩ := List.append_inj' heq rfl
      rw [List.head_eq_of_cons_eq hw', hw] at hv
      cases hv
    · rw [List.concat_eq_append] at heq hmid ⊢
      have heq' : before ++ [v] = pre ++ w :: mid' ++ [u] := by
        rw [heq, List.append_assoc, List.cons_append]
      obtain ⟨rfl, hu⟩ := List.append_inj' heq' rfl
      rw [hu]
      exact ⟨mid', rfl, pre, w, rfl, hw, fun x hx => hmid x (List.mem_append_left _ hx)⟩
  · rintro ⟨mid', rfl, pre, w, rfl, hw, hmid⟩
    refine ⟨pre, w, by rw [List.append_assoc, List.cons_append], hw, fun x hx => ?_⟩
    rcases List.mem_append.mp hx with hx | hx
    · exact hmid x hx
    · rw [List.mem_singleton.mp hx]
      exact hv

theorem leaves_concat_of_some {before : List BlockVisit} {v : BlockVisit} {t f : DrivenEnd}
    {mid : List BlockVisit} (hv : visitEnd placements v = some t) :
    Leaves placements (before ++ [v]) f mid ↔ f = t ∧ mid = [] := by
  constructor
  · rintro ⟨pre, w, heq, hw, hmid⟩
    rcases List.eq_nil_or_concat mid with rfl | ⟨mid', u, rfl⟩
    · obtain ⟨-, hw'⟩ := List.append_inj' heq rfl
      rw [List.head_eq_of_cons_eq hw', hw] at hv
      exact ⟨Option.some.inj hv, rfl⟩
    · rw [List.concat_eq_append] at heq hmid
      have heq' : before ++ [v] = pre ++ w :: mid' ++ [u] := by
        rw [heq, List.append_assoc, List.cons_append]
      have hu := List.head_eq_of_cons_eq (List.append_inj' heq' rfl).2
      have hnone := hmid u (List.mem_append_right _ List.mem_cons_self)
      rw [← hu, hv] at hnone
      cases hnone
  · rintro ⟨rfl, rfl⟩
    exact ⟨before, v, rfl, hv, by simp⟩

/-- The block before and the label are those of the stretch so far. -/
theorem state_of_visits (replayId : Int) {s : MineState}
    (hs : s.prevBlock = none ∧ s.pendingLink = .contact) (before : List BlockVisit)
    (f : DrivenEnd) :
    ((before.foldl (mineVisit placements replayId) s).prevBlock = some f ↔
        ∃ mid, Leaves placements before f mid) ∧
      ∀ mid, Leaves placements before f mid →
        (before.foldl (mineVisit placements replayId) s).pendingLink = linkOf mid := by
  induction before using List.reverseRecOn with
  | nil =>
    have hnil : ∀ mid, ¬ Leaves placements [] f mid := by
      rintro mid ⟨pre, v, heq, -⟩
      simp at heq
    refine ⟨?_, fun mid h => absurd h (hnil mid)⟩
    rw [List.foldl_nil, hs.1]
    constructor
    · intro h
      cases h
    · rintro ⟨mid, h⟩
      exact absurd h (hnil mid)
  | append_singleton before v ih =>
    rw [List.foldl_append, List.foldl_cons, List.foldl_nil]
    cases hv : visitEnd placements v with
    | none =>
      rw [mineVisit_of_none placements hv]
      simp only [leaves_concat_of_none placements hv]
      refine ⟨?_, ?_⟩
      · rw [ih.1]
        constructor
        · rintro ⟨mid, h⟩
          exact ⟨_, mid, rfl, h⟩
        · rintro ⟨_, mid, -, h⟩
          exact ⟨mid, h⟩
      · rintro _ ⟨mid, rfl, h⟩
        rw [ih.2 mid h]
        unfold linkOf
        rw [List.foldl_append]
        rfl
    | some t =>
      rw [mineVisit_of_some placements hv]
      simp only [leaves_concat_of_some placements hv]
      refine ⟨?_, ?_⟩
      · have hprev : (mineBlock replayId t
            (before.foldl (mineVisit placements replayId) s)).prevBlock = some t := rfl
        rw [hprev, Option.some.injEq, eq_comm]
        simp
      · rintro mid ⟨-, rfl⟩
        rfl

/-! ## The whole table -/

/-- A replay is counted for what its stretches make, under the label that they leave. -/
theorem counted_mineReplay (s : MineState) (replay : Int × List BlockVisit) (T : MinedTransition)
    (replayId : Int) :
    Counted (mineReplay placements s replay).counts T replayId ↔
      Counted s.counts T replayId ∨ replayId = replay.1 ∧ Counts T ∧
        ∃ f mid t, Stretch placements replay.2 f mid t ∧ T = ⟨jointOf f t, linkOf mid⟩ := by
  have hrun := counted_foldl_mineVisit placements replayId replay.1 T
    { s with prevBlock := none, pendingLink := .contact, run := none } replay.2
  have hstate := fun before f => state_of_visits placements replay.1
    (s := { s with prevBlock := none, pendingLink := .contact, run := none }) ⟨rfl, rfl⟩ before f
  unfold mineReplay
  dsimp only
  rw [hrun]
  refine or_congr_right (and_congr_right' (and_congr_right' ?_))
  constructor
  · rintro ⟨before, w, post, heq, t, ht, f, hf, rfl⟩
    obtain ⟨mid, hleaves⟩ := (hstate before f).1.mp hf
    rw [(hstate before f).2 mid hleaves]
    exact ⟨f, mid, t, ⟨before, w, post, heq, hleaves, ht⟩, rfl⟩
  · rintro ⟨f, mid, t, ⟨before, w, post, heq, hleaves, ht⟩, rfl⟩
    refine ⟨before, w, post, heq, t, ht, f, (hstate before f).1.mpr ⟨mid, hleaves⟩, ?_⟩
    rw [(hstate before f).2 mid hleaves]

theorem counted_mineCounts (rows : List (Int × BlockVisit)) (T : MinedTransition)
    (replayId : Int) :
    Counted (mineCounts placements rows).counts T replayId ↔
      Counts T ∧ ∃ f mid t, Stretch placements (captureOf rows replayId) f mid t ∧
        T = ⟨jointOf f t, linkOf mid⟩ := by
  have hfold : ∀ (items : List (Int × List BlockVisit)) (s : MineState),
      Counted (items.foldl (mineReplay placements) s).counts T replayId ↔
        Counted s.counts T replayId ∨ ∃ e ∈ items, replayId = e.1 ∧ Counts T ∧
          ∃ f mid t, Stretch placements e.2 f mid t ∧ T = ⟨jointOf f t, linkOf mid⟩ := by
    intro items
    induction items with
    | nil => simp
    | cons e items ih =>
      intro s
      rw [List.foldl_cons, ih, counted_mineReplay, List.exists_mem_cons_iff]
      exact or_assoc
  have hcapture := getD_byReplay rows replayId
  unfold mineCounts
  rw [hfold]
  constructor
  · rintro (⟨per, hper, -⟩ | ⟨e, he, rfl, hmakes⟩)
    · cases hper
    · rw [Dict.get?_eq_some he] at hcapture
      exact hcapture ▸ hmakes
  · rintro ⟨hT, f, mid, t, hstretch, rfl⟩
    rw [← hcapture] at hstretch
    cases hget : (byReplay rows).get? replayId with
    | none =>
      rw [hget] at hstretch
      obtain ⟨before, w, post, heq, -⟩ := hstretch
      simp at heq
    | some visits =>
      rw [hget] at hstretch
      exact .inr ⟨(replayId, visits), Dict.mem_items_of_get? hget, rfl, hT, f, mid, t, hstretch,
        rfl⟩

/-- No counter is empty. -/
def NoneEmpty (counts : Dict MinedTransition (Counter Int)) : Prop :=
  ∀ e ∈ counts.items, e.2.items ≠ []

theorem noneEmpty_mineVisit (replayId : Int) {s : MineState} (h : NoneEmpty s.counts)
    (v : BlockVisit) : NoneEmpty (mineVisit placements replayId s v).counts := by
  cases hv : visitEnd placements v with
  | none =>
    rw [mineVisit_of_none placements hv]
    exact h
  | some t =>
    rw [mineVisit_of_some placements hv]
    unfold mineBlock
    simp only [extendRun_prevBlock, extendRun_pendingLink, extendRun_counts]
    cases s.prevBlock with
    | none => exact h
    | some f =>
      dsimp only
      split
      · exact Dict.forall_upsert (P := fun _ (per : Counter Int) => per.items ≠ []) h
          fun old _ => Dict.items_upsert_ne_nil _ _ _
      · exact h

theorem noneEmpty_mineCounts (rows : List (Int × BlockVisit)) :
    NoneEmpty (mineCounts placements rows).counts := by
  have hreplay : ∀ (visits : List BlockVisit) (replayId : Int) (s : MineState),
      NoneEmpty s.counts → NoneEmpty (visits.foldl (mineVisit placements replayId) s).counts := by
    intro visits replayId
    induction visits with
    | nil => exact fun s h => h
    | cons v visits ih => exact fun s h => ih _ (noneEmpty_mineVisit placements replayId h v)
  have hreplays : ∀ (items : List (Int × List BlockVisit)) (s : MineState),
      NoneEmpty s.counts → NoneEmpty (items.foldl (mineReplay placements) s).counts := by
    intro items
    induction items with
    | nil => exact fun s h => h
    | cons e items ih => exact fun s h => ih _ (hreplay e.2 e.1 _ h)
  refine hreplays _ _ fun e he => ?_
  cases he

/-- A mined row counts the replays that its transition has been counted for. -/
theorem mem_mine {rows : List (Int × BlockVisit)} {e : MinedTransition × Nat × Nat}
    (he : e ∈ (mine placements rows).1) :
    Counts e.1 ∧
      e.2.2 = {replayId | Counted (mineCounts placements rows).counts e.1 replayId}.ncard ∧
      {replayId | Counted (mineCounts placements rows).counts e.1 replayId}.Finite := by
  unfold mine at he
  obtain ⟨entry, hentry, rfl⟩ := List.mem_map.mp he
  obtain ⟨first, rest, hitems⟩ :=
    List.exists_cons_of_ne_nil (noneEmpty_mineCounts placements rows entry hentry)
  have hfirst : Counted (mineCounts placements rows).counts entry.1 first.1 :=
    ⟨entry.2, Dict.get?_eq_some hentry, Dict.mem_keys.mpr ⟨first.2, by simp [hitems]⟩⟩
  refine ⟨((counted_mineCounts placements rows _ _).mp hfirst).1, ?_⟩
  have hset : {replayId | Counted (mineCounts placements rows).counts entry.1 replayId} =
      (entry.2.keys.toFinset : Set Int) := by
    ext replayId
    unfold Counted
    simp [Dict.get?_eq_some hentry]
  dsimp only
  rw [hset]
  refine ⟨?_, Finset.finite_toSet _⟩
  rw [Set.ncard_coe_finset, List.toFinset_card_of_nodup entry.2.keys_nodup]
  exact (List.length_map _).symm

/-- A counted transition has a row. -/
theorem exists_mem_mine {rows : List (Int × BlockVisit)} {T : MinedTransition} {replayId : Int}
    (h : Counted (mineCounts placements rows).counts T replayId) :
    ∃ e ∈ (mine placements rows).1, e.1 = T := by
  obtain ⟨per, hper, -⟩ := h
  exact ⟨_, List.mem_map.mpr ⟨(T, per), Dict.mem_items_of_get? hper, rfl⟩, rfl⟩

/-! ## What labels and counts mean -/

/-- The label that a stretch is given: the pending one before the visit that ends it. -/
def labelAt (replayId : Int) (before : List BlockVisit) : Link :=
  (before.foldl (mineVisit placements replayId)
    ⟨none, .contact, none, Dict.empty, Dict.empty⟩).pendingLink

/-- The maps in which some replay makes the transition. -/
def mapsOf (mapOf : Int → Int) (rows : List (Int × BlockVisit)) (T : MinedTransition) : Set Int :=
  mapOf '' {replayId | Makes placements rows T replayId}

/-- Labels and counts mean what they say: a counted stretch with a visit off the surface is a gap,
    one of airborne visits a jump, and only an empty one is a contact; the stored count is that of
    the maps; and the prior knows the contacts of two types on enough maps. -/
structure MeansWhatItSays (mapOf : Int → Int) (version : Text) (stored : List TransitionRow)
    (rows : List (Int × BlockVisit)) : Prop where
  labels : ∀ replayId before w post f mid t,
    captureOf rows replayId = before ++ w :: post → Leaves placements before f mid →
    visitEnd placements w = some t →
    f.blockType ≠ t.blockType ∨ labelAt placements replayId before ≠ .contact →
    (.offSurface ∈ mid.map BlockVisit.state → labelAt placements replayId before = .gap) ∧
      (mid ≠ [] → (∀ u ∈ mid, u.state = .airborne) →
        labelAt placements replayId before = .jump) ∧
      (labelAt placements replayId before = .contact → mid = [])
  support : ∀ r ∈ (persist version (mine placements rows).1 stored).1,
    r.extractorVersion = version → r.nMaps = (mapsOf placements mapOf rows r.transition).ncard
  threshold : ∃ prior,
    DrivenPrior.load (exportTransitions (mine placements rows).1) = .ok prior ∧
      ∀ a b, 0 < prior.share (String.ofList a) (String.ofList b) ↔
        a ≠ b ∧ ∃ K : JointKey, K.fromType = a ∧ K.toType = b ∧
          minMaps ≤ (mapsOf placements mapOf rows ⟨K, .contact⟩).ncard

/-- No airborne visit hides one off the surface, no unresolved one is alone between two types, and
    no two replays of a map make the same transition. -/
structure Unambiguous (mapOf : Int → Int) (rows : List (Int × BlockVisit)) : Prop where
  gapLast : ∀ replayId f mid t, Stretch placements (captureOf rows replayId) f mid t → GapLast mid
  resolved : ∀ replayId f mid t, Stretch placements (captureOf rows replayId) f mid t →
    f.blockType ≠ t.blockType → mid ≠ [] → ∃ u ∈ mid, u.state ≠ .onBlock
  once : ∀ T, Counts T → Set.InjOn mapOf {replayId | Makes placements rows T replayId}

variable {placements}

theorem labelAt_eq (replayId : Int) {before : List BlockVisit} {f : DrivenEnd}
    {mid : List BlockVisit} (h : Leaves placements before f mid) :
    labelAt placements replayId before = linkOf mid :=
  (state_of_visits placements replayId ⟨rfl, rfl⟩ before f).2 mid h

/-- Where no visit off the surface is hidden, a replay is counted for what it makes. -/
theorem counted_iff_makes {rows : List (Int × BlockVisit)}
    (h : ∀ replayId f mid t, Stretch placements (captureOf rows replayId) f mid t → GapLast mid)
    {T : MinedTransition} (hT : Counts T) (replayId : Int) :
    Counted (mineCounts placements rows).counts T replayId ↔
      Makes placements rows T replayId := by
  rw [counted_mineCounts]
  unfold Makes
  constructor
  · rintro ⟨-, f, mid, t, hstretch, rfl⟩
    exact ⟨f, mid, t, hstretch, by rw [linkOf_eq_meantLink (h _ _ _ _ hstretch)]⟩
  · rintro ⟨f, mid, t, hstretch, rfl⟩
    exact ⟨hT, f, mid, t, hstretch, by rw [linkOf_eq_meantLink (h _ _ _ _ hstretch)]⟩

/-- The stored count of a transition, where its maps are counted once each. -/
theorem mapsOf_ncard {mapOf : Int → Int} {rows : List (Int × BlockVisit)}
    (h : ∀ replayId f mid t, Stretch placements (captureOf rows replayId) f mid t → GapLast mid)
    {e : MinedTransition × Nat × Nat} (he : e ∈ (mine placements rows).1) :
    e.2.2 = (mapsOf placements mapOf rows e.1).ncard ↔
      Set.InjOn mapOf {replayId | Makes placements rows e.1 replayId} := by
  obtain ⟨hT, hcount, hfinite⟩ := mem_mine placements he
  have hset : {replayId | Counted (mineCounts placements rows).counts e.1 replayId} =
      {replayId | Makes placements rows e.1 replayId} :=
    Set.ext (counted_iff_makes h hT)
  rw [hset] at hcount hfinite
  unfold mapsOf
  rw [hcount, eq_comm]
  exact Set.ncard_image_iff hfinite

/-- The rows of this version are the mined ones. -/
theorem mem_persist (version : Text) (mined : List (MinedTransition × Nat × Nat))
    (stored : List TransitionRow) (r : TransitionRow) :
    r ∈ (persist version mined stored).1 ∧ r.extractorVersion = version ↔
      ∃ e ∈ mined, (⟨version, e.1, e.2.1, e.2.2, version⟩ : TransitionRow) = r := by
  unfold persist
  simp only [List.mem_append, List.mem_filter, decide_eq_true_iff, List.mem_map]
  constructor
  · rintro ⟨⟨-, hne⟩ | hmem, hversion⟩
    · exact absurd hversion hne
    · exact hmem
  · rintro ⟨e, he, rfl⟩
    exact ⟨.inr ⟨e, he, rfl⟩, rfl⟩

theorem linkOf_ne_contact {mid : List BlockVisit} (h : .offSurface ∈ mid.map BlockVisit.state) :
    linkOf mid ≠ .contact := by
  intro hcontact
  obtain ⟨u, hu, hstate⟩ := List.mem_map.mp h
  have hon := (linkOf_eq_contact_iff mid).mp hcontact u hu
  rw [hstate] at hon
  cases hon

theorem linkOf_of_airborne {mid : List BlockVisit} (hne : mid ≠ [])
    (h : ∀ u ∈ mid, u.state = .airborne) : linkOf mid = .jump := by
  have hoff : .offSurface ∉ mid.map BlockVisit.state := by
    intro hoff
    obtain ⟨u, hu, hstate⟩ := List.mem_map.mp hoff
    rw [h u hu] at hstate
    cases hstate
  obtain ⟨u, rest, rfl⟩ := List.exists_cons_of_ne_nil hne
  have hmem : .airborne ∈ (u :: rest).map BlockVisit.state :=
    List.mem_map.mpr ⟨u, List.mem_cons_self, h u List.mem_cons_self⟩
  rw [linkOf_of_no_gap hoff]
  unfold meantLink
  rw [if_neg hoff, if_pos hmem]

/-- The prior knows the contacts of two types that are mined on enough maps. -/
theorem share_pos_iff_maps {mapOf : Int → Int} {rows : List (Int × BlockVisit)}
    (hgap : ∀ replayId f mid t,
      Stretch placements (captureOf rows replayId) f mid t → GapLast mid)
    (hcount : ∀ e ∈ (mine placements rows).1,
      e.2.2 = (mapsOf placements mapOf rows e.1).ncard) :
    ∃ prior, DrivenPrior.load (exportTransitions (mine placements rows).1) = .ok prior ∧
      ∀ a b, 0 < prior.share (String.ofList a) (String.ofList b) ↔
        a ≠ b ∧ ∃ K : JointKey, K.fromType = a ∧ K.toType = b ∧
          minMaps ≤ (mapsOf placements mapOf rows ⟨K, .contact⟩).ncard := by
  obtain ⟨prior, hprior, hshare⟩ := share_pos_iff (exportTransitions (mine placements rows).1)
  refine ⟨prior, hprior, fun a b => ?_⟩
  rw [hshare]
  unfold exportTransitions
  simp only [SortBy.mem_sortBy]
  constructor
  · intro ⟨e, he, ⟨hlink, htypes, hmaps⟩, ha, hb⟩
    obtain rfl := String.ofList_injective ha
    obtain rfl := String.ofList_injective hb
    refine ⟨htypes, e.1.joint, rfl, rfl, ?_⟩
    have heta : (⟨e.1.joint, .contact⟩ : MinedTransition) = e.1 := by rw [← hlink]
    rw [heta, ← hcount e he]
    exact hmaps
  · rintro ⟨hab, K, rfl, rfl, hmaps⟩
    have hpos : 0 < (mapsOf placements mapOf rows ⟨K, .contact⟩).ncard := by
      unfold minMaps at hmaps
      omega
    obtain ⟨-, id, hid, -⟩ := Set.nonempty_of_ncard_ne_zero (Nat.pos_iff_ne_zero.mp hpos)
    have hcounted := (counted_iff_makes hgap (.inl hab) id).mpr hid
    obtain ⟨e, he, heq⟩ := exists_mem_mine placements hcounted
    refine ⟨e, he, ⟨by rw [heq], by rw [heq]; exact hab, ?_⟩, by rw [heq], by rw [heq]⟩
    rw [hcount e he, heq]
    exact hmaps

/-- Labels and map counts mean what they say if and only if nothing is ambiguous. -/
theorem means_what_it_says_iff (mapOf : Int → Int) (version : Text) (stored : List TransitionRow)
    (rows : List (Int × BlockVisit)) :
    MeansWhatItSays placements mapOf version stored rows ↔ Unambiguous placements mapOf rows := by
  constructor
  · rintro ⟨hlabels, hsupport, -⟩
    have hgap : ∀ replayId f mid t, Stretch placements (captureOf rows replayId) f mid t →
        GapLast mid := by
      rintro replayId f mid t ⟨before, w, post, heq, hleaves, hw⟩
      rw [gapLast_iff]
      intro hoff
      have hlink := labelAt_eq replayId hleaves
      have hne := linkOf_ne_contact hoff
      rw [← hlink] at hne ⊢
      exact (hlabels replayId before w post f mid t heq hleaves hw (.inr hne)).1 hoff
    refine ⟨hgap, ?_, fun T hT => ?_⟩
    · rintro replayId f mid t ⟨before, w, post, heq, hleaves, hw⟩ htypes hne
      have hlink := labelAt_eq replayId hleaves
      have hlaw := (hlabels replayId before w post f mid t heq hleaves hw (.inl htypes)).2.2
      by_contra hnone
      push Not at hnone
      rw [hlink] at hlaw
      exact hne (hlaw ((linkOf_eq_contact_iff mid).mpr hnone))
    · intro id hid id' hid' hmaps
      have hcounted := (counted_iff_makes hgap hT id).mpr hid
      obtain ⟨e, he, rfl⟩ := exists_mem_mine placements hcounted
      obtain ⟨hr, hversion⟩ := (mem_persist version _ stored _).mpr ⟨e, he, rfl⟩
      exact (mapsOf_ncard hgap he).mp (hsupport _ hr hversion) hid hid' hmaps
  · rintro ⟨hgap, hresolved, honce⟩
    have hcount : ∀ e ∈ (mine placements rows).1,
        e.2.2 = (mapsOf placements mapOf rows e.1).ncard := by
      intro e he
      exact (mapsOf_ncard hgap he).mpr (honce e.1 (mem_mine placements he).1)
    refine ⟨?_, ?_, ?_⟩
    · intro replayId before w post f mid t heq hleaves hw hcounts
      have hstretch : Stretch placements (captureOf rows replayId) f mid t :=
        ⟨before, w, post, heq, hleaves, hw⟩
      have hlink := labelAt_eq replayId hleaves
      rw [hlink] at hcounts ⊢
      refine ⟨(gapLast_iff mid).mp (hgap _ _ _ _ hstretch), fun hne hair => ?_, fun hcontact => ?_⟩
      · exact linkOf_of_airborne hne hair
      · by_contra hne
        rcases hcounts with htypes | hlabel
        · obtain ⟨u, hu, hstate⟩ := hresolved _ _ _ _ hstretch htypes hne
          exact hstate ((linkOf_eq_contact_iff mid).mp hcontact u hu)
        · exact hlabel hcontact
    · intro r hr hversion
      obtain ⟨e, he, rfl⟩ := (mem_persist version _ stored r).mp ⟨hr, hversion⟩
      exact hcount e he
    · exact share_pos_iff_maps hgap hcount

end

/-- The car leaves the start over the grass, hops and comes down on the road: twice on one map. -/
def bounceRows : List (Int × BlockVisit) :=
  [7, 8].flatMap fun replayId =>
    [(replayId, ⟨.onBlock, some 1, 0, 0⟩), (replayId, ⟨.offSurface, none, 0, 0⟩),
      (replayId, ⟨.airborne, none, 0, 0⟩), (replayId, ⟨.onBlock, some 2, 0, 0⟩)]

/-- The visit off the surface is forgotten, and the two replays count as two maps. -/
theorem bounce_mislabelled :
    (mine cornerPlacements bounceRows).1 =
        [(⟨⟨"Start".toList, "Road".toList, some 0, 1, 0, 0⟩, .jump⟩, 2, 2)] ∧
      ¬ MeansWhatItSays cornerPlacements (fun _ => 1) "driven_transitions-0.1".toList []
        bounceRows := by
  refine ⟨by decide, fun h => ?_⟩
  have hlaw := h.labels 7
    [⟨.onBlock, some 1, 0, 0⟩, ⟨.offSurface, none, 0, 0⟩, ⟨.airborne, none, 0, 0⟩]
    ⟨.onBlock, some 2, 0, 0⟩ [] ⟨"Start".toList, some ⟨0, 9, 0⟩, some 0, false⟩
    [⟨.offSurface, none, 0, 0⟩, ⟨.airborne, none, 0, 0⟩]
    ⟨"Road".toList, some ⟨1, 9, 0⟩, some 0, false⟩ (by decide)
    ⟨[], ⟨.onBlock, some 1, 0, 0⟩, rfl, by decide, by decide⟩ (by decide) (.inl (by decide))
  exact absurd (hlaw.1 (by decide)) (by decide)

end TraxMania.Learning
