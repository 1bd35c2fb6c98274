import TraxMania.Corridor.AnchorSets
import TraxMania.Generation.Assembly

/-
  Whether the enumerator and the assembler agree on the interval chain of a map. They read the same
  rows, one grouped and sorted by tag and order, one sorted by `_ANCHOR_QUERY`; checkpoints and goal
  come out the same. The spawn does not: the enumerator takes a `StartFinish` for one and calls it
  `("Spawn", 0)` whatever its order, the assembler wants a `Spawn` row and keeps its order
  (`intervalChain_agrees_iff`).
-/

namespace TraxMania.Generation

open TraxMania.Corridor Lib Lib.SortBy

/-- What `_ANCHOR_QUERY` selects of a grid-placed row. -/
def checkpointRow (r : GridRow) : CheckpointRow :=
  ⟨r.waypointIndex, r.waypointOrder, r.tag, some r.cell.x, some r.cell.y, some r.cell.z⟩

/-- The enumerator's anchor sets. -/
def enumeratorSets (rows : List GridRow) : List AnchorSet :=
  buildAnchorSets (rows.map GridRow.waypoint)

/-- What the assembler detects. -/
def assemblerAnchors (rows : List GridRow) : Bool × List Anchor :=
  detectAndOrderAnchors (anchorQuery (rows.map checkpointRow))

/-- The key of a planned interval. -/
def planKey (plan : IntervalPlan) : IntervalKey :=
  ((plan.srcTag, plan.srcOrder), plan.dstTag, plan.dstOrder)

/-- Every planned interval has a scored corridor. -/
def AllScored {σ : Type*} (plans : List IntervalPlan) (candidates : List (CandidateCorridor σ)) :
    Prop :=
  ∀ plan ∈ plans, ∃ c ∈ candidates, c.learnedCorridorScore.isSome ∧
    (c.src.key, c.dst.key) = planKey plan

/-- The two sides agree: on the branch, on the keys, and so on which corridors are there. -/
def Agree (rows fetched : List GridRow) : Prop :=
  ((Anchors.ofSets (enumeratorSets rows)).takesLinkedBranch ↔
    (assemblerAnchors fetched).1 = true ∧ ∃ a ∈ (assemblerAnchors fetched).2, a.tag = "Spawn") ∧
  ((Anchors.ofSets (enumeratorSets rows)).takesLinkedBranch →
    (planIntervals (enumeratorSets rows)).map planKey = lookupKeys (assemblerAnchors fetched).2 ∧
    ∀ candidates : List (CandidateCorridor Rat),
      AllScored (planIntervals (enumeratorSets rows)) candidates →
        missingCorridorInInterval (assemblerAnchors fetched).2 candidates = none)

/-- The rows of a Linked-CP map. -/
def LinkedShape (rows : List GridRow) : Prop :=
  (∃ r ∈ rows, r.tag = "LinkedCheckpoint") ∧ (∀ r ∈ rows, r.tag ≠ "Checkpoint") ∧
    ∃ r ∈ rows, r.tag = "Goal"

/-- `order` is the least order of the rows with the tag. -/
def IsLeastOrder (rows : List GridRow) (tag : String) (order : Int) : Prop :=
  HasAnchor rows tag order ∧ ∀ o, HasAnchor rows tag o → order ≤ o

theorem IsLeastOrder.unique {rows : List GridRow} {tag : String} {o o' : Int}
    (h : IsLeastOrder rows tag o) (h' : IsLeastOrder rows tag o') : o = o' :=
  le_antisymm (h.2 o' h'.1) (h'.2 o h.1)

/-- A linked map that has a start has a `Spawn` row, and its least order is zero. -/
def SpawnFits (rows : List GridRow) : Prop :=
  LinkedShape rows → (∃ r ∈ rows, r.tag ∈ spawnTags) → IsLeastOrder rows "Spawn" 0

theorem hasAnchor_perm {rows rows' : List GridRow} (h : rows.Perm rows') (tag : String)
    (order : Int) : HasAnchor rows tag order ↔ HasAnchor rows' tag order := by
  unfold HasAnchor
  simp only [h.mem_iff]

/-! ## The enumerator's side -/

/-- The linked orders of a map, in order. -/
def SortedOrders (rows : List GridRow) (tag : String) (orders : List Int) : Prop :=
  orders.Pairwise (· < ·) ∧ ∀ o, o ∈ orders ↔ HasAnchor rows tag o

theorem SortedOrders.unique {rows : List GridRow} {tag : String} {os os' : List Int}
    (h : SortedOrders rows tag os) (h' : SortedOrders rows tag os') : os = os' :=
  h.1.eq_of_mem_iff h'.1 fun o => (h.2 o).trans (h'.2 o).symm

theorem mem_enumeratorSets {rows : List GridRow} {tag : String} {order : Int} :
    (∃ aset ∈ Corridor.withTag tag (enumeratorSets rows), aset.waypointOrder = order) ↔
      HasAnchor rows tag order := by
  rw [← mem_buildAnchorSets]
  unfold Corridor.withTag enumeratorSets
  constructor
  · rintro ⟨aset, haset, rfl⟩
    obtain ⟨hmem, htag⟩ := List.mem_filter.mp haset
    exact ⟨aset, hmem, by simpa using htag, rfl⟩
  · rintro ⟨aset, hmem, htag, rfl⟩
    exact ⟨aset, List.mem_filter.mpr ⟨hmem, by simpa using htag⟩, rfl⟩

theorem enumerator_orders (rows : List GridRow) (tag : String) :
    SortedOrders rows tag
      ((Corridor.withTag tag (enumeratorSets rows)).map AnchorSet.waypointOrder) := by
  refine ⟨List.pairwise_map.mpr (orders_sorted _ tag), fun o => ?_⟩
  rw [← mem_enumeratorSets]
  exact List.mem_map

theorem withTag_ne_nil {rows : List GridRow} (tag : String) :
    Corridor.withTag tag (enumeratorSets rows) ≠ [] ↔ ∃ r ∈ rows, r.tag = tag := by
  constructor
  · intro h
    obtain ⟨aset, haset⟩ := List.exists_mem_of_ne_nil _ h
    obtain ⟨r, hr, htag, -⟩ := mem_enumeratorSets.mp ⟨aset, haset, rfl⟩
    exact ⟨r, hr, htag⟩
  · rintro ⟨r, hr, htag⟩
    obtain ⟨aset, haset, -⟩ := mem_enumeratorSets.mpr ⟨r, hr, htag, rfl⟩
    exact List.ne_nil_of_mem haset

theorem spawnCells_ne_empty {rows : List GridRow} :
    (Anchors.ofSets (enumeratorSets rows)).spawnCells ≠ ∅ ↔ ∃ r ∈ rows, r.tag ∈ spawnTags := by
  have hspec := Anchors.ofSets_spec (enumeratorSets rows)
  rw [← Finset.nonempty_iff_ne_empty]
  constructor
  · rintro ⟨c, hc⟩
    obtain ⟨aset, haset, htag, -⟩ := ((hspec.spawn c).mp hc).resolve_left (by simp [Anchors.none])
    obtain ⟨r, hr, hrt, -⟩ := mem_buildAnchorSets.mp ⟨aset, haset, rfl, rfl⟩
    exact ⟨r, hr, hrt ▸ htag⟩
  · rintro ⟨r, hr, htag⟩
    obtain ⟨aset, haset, hat, -⟩ := mem_buildAnchorSets.mpr ⟨r, hr, rfl, rfl⟩
    obtain ⟨c, hc⟩ := Finset.nonempty_iff_ne_empty.mpr (cells_nonempty aset haset)
    exact ⟨c, (hspec.spawn c).mpr (Or.inr ⟨aset, haset, hat ▸ htag, hc⟩)⟩

theorem takesLinkedBranch_iff {rows : List GridRow} :
    (Anchors.ofSets (enumeratorSets rows)).takesLinkedBranch ↔
      (∃ r ∈ rows, r.tag ∈ spawnTags) ∧ LinkedShape rows := by
  have hspec := Anchors.ofSets_spec (enumeratorSets rows)
  unfold Anchors.takesLinkedBranch Anchors.linked LinkedShape
  rw [spawnCells_ne_empty, hspec.linked, hspec.plain, hspec.goal]
  simp only [Anchors.none, List.nil_append, Option.none_or]
  rw [withTag_ne_nil, List.isSome_head?, ← withTag_ne_nil "Goal"]
  have hplain : Corridor.withTag "Checkpoint" (enumeratorSets rows) = [] ↔
      ∀ r ∈ rows, r.tag ≠ "Checkpoint" := by
    rw [← not_iff_not]
    push Not
    exact withTag_ne_nil _
  rw [hplain]

/-- The pairs of neighbours in a list. -/
def consecutive {κ : Type*} (keys : List κ) : List (κ × κ) := keys.zip keys.tail

theorem consecutive_concat {κ : Type*} {keys : List κ} {last : κ} (k : κ)
    (h : keys.getLast? = some last) :
    consecutive (keys ++ [k]) = consecutive keys ++ [(last, k)] := by
  unfold consecutive
  induction keys with
  | nil => simp at h
  | cons a keys ih =>
    cases keys with
    | nil =>
      obtain rfl : a = last := by simpa using h
      rfl
    | cons b keys =>
      rw [List.getLast?_cons_cons] at h
      have hrest := ih h
      simp only [List.cons_append, List.tail_cons, List.zip_cons_cons] at hrest ⊢
      rw [hrest]

theorem consecutive_injective {κ : Type*} {a b : κ} {l l' : List κ} (hl : l ≠ [])
    (h : consecutive (a :: l) = consecutive (b :: l')) : a = b := by
  unfold consecutive at h
  cases l with
  | nil => exact absurd rfl hl
  | cons x l =>
    cases l' with
    | nil => simp at h
    | cons y l' => exact (Prod.mk.inj (List.cons.inj h).1).1

/-- The keys of a linked chain that starts at `("Spawn", spawnOrder)`. -/
def chainKeys (spawnOrder : Int) (orders : List Int) (goalOrder : Int) : List (String × Int) :=
  ("Spawn", spawnOrder) :: (orders.map fun o => ("LinkedCheckpoint", o)) ++ [("Goal", goalOrder)]

def setKey (a : AnchorSet) : String × Int := (a.tag, a.waypointOrder)

theorem planKey_zipWith (sets : List AnchorSet) :
    (List.zipWith Anchors.interval sets sets.tail).map planKey =
      consecutive (sets.map setKey) := by
  unfold consecutive
  rw [List.map_zipWith, ← List.map_tail, List.zip, List.zipWith_map]
  rfl

theorem map_setKey {tag : String} {sets : List AnchorSet} (h : ∀ a ∈ sets, a.tag = tag) :
    sets.map setKey = (sets.map AnchorSet.waypointOrder).map fun o => (tag, o) := by
  rw [List.map_map]
  refine List.map_congr_left fun a ha => ?_
  rw [setKey, h a ha]
  rfl

/-- The keys the enumerator plans on its Linked-CP branch. -/
theorem planIntervals_keys {rows : List GridRow}
    (h : (Anchors.ofSets (enumeratorSets rows)).takesLinkedBranch) :
    ∃ orders goalOrder, SortedOrders rows "LinkedCheckpoint" orders ∧ orders ≠ [] ∧
      IsLeastOrder rows "Goal" goalOrder ∧
      (planIntervals (enumeratorSets rows)).map planKey =
        consecutive (chainKeys 0 orders goalOrder) := by
  have hspec := Anchors.ofSets_spec (enumeratorSets rows)
  obtain ⟨hcells, hlinked⟩ := h
  have hcps : (Anchors.ofSets (enumeratorSets rows)).linkedCps =
      Corridor.withTag "LinkedCheckpoint" (enumeratorSets rows) := hspec.linked
  have hgoal : (Anchors.ofSets (enumeratorSets rows)).goal =
      (Corridor.withTag "Goal" (enumeratorSets rows)).head? := by rw [hspec.goal]; rfl
  have hne := hlinked.1
  obtain ⟨goal, hgoalSome⟩ := Option.isSome_iff_exists.mp hlinked.2.2
  unfold planIntervals
  dsimp only
  rw [if_neg hcells, if_pos hlinked]
  unfold Anchors.chainPlans Anchors.fromSpawn
  rw [hgoalSome]
  rw [hcps] at hne ⊢
  rw [hgoal] at hgoalSome
  have horders := enumerator_orders rows "LinkedCheckpoint"
  have hsort : sortBy AnchorSet.waypointOrder
      (Corridor.withTag "LinkedCheckpoint" (enumeratorSets rows)) =
      Corridor.withTag "LinkedCheckpoint" (enumeratorSets rows) :=
    sortBy_eq_self ((List.pairwise_map.mp horders.1).imp le_of_lt)
  have htag : ∀ a ∈ Corridor.withTag "LinkedCheckpoint" (enumeratorSets rows),
      a.tag = "LinkedCheckpoint" := fun a ha => by simpa using (List.mem_filter.mp ha).2
  have hleast : IsLeastOrder rows "Goal" goal.waypointOrder := by
    obtain ⟨rest, hrest⟩ := List.head?_eq_some_iff.mp hgoalSome
    have hgoals := enumerator_orders rows "Goal"
    rw [hrest, List.map_cons] at hgoals
    refine ⟨(hgoals.2 _).mp (by simp), fun o ho => ?_⟩
    rcases List.mem_cons.mp ((hgoals.2 o).mpr ho) with rfl | ho
    · exact le_refl _
    · exact le_of_lt ((List.pairwise_cons.mp hgoals.1).1 o ho)
  have hgoalTag : goal.tag = "Goal" := by
    simpa using (List.mem_filter.mp (List.mem_of_mem_head? hgoalSome)).2
  dsimp only
  rw [hsort]
  generalize Corridor.withTag "LinkedCheckpoint" (enumeratorSets rows) = chain at hne horders htag
  obtain ⟨first, rest, rfl⟩ := List.exists_cons_of_ne_nil hne
  obtain ⟨last, hlast⟩ : ∃ last, (first :: rest).getLast? = some last :=
    ⟨_, List.getLast?_eq_some_getLast hne⟩
  refine ⟨_, goal.waypointOrder, horders, by simp, hleast, ?_⟩
  rw [hlast, List.head?_cons]
  dsimp only
  have hlastKey : ((first :: rest).map setKey).getLast? = some (setKey last) := by
    rw [List.getLast?_map, hlast]
    rfl
  rw [List.map_cons, List.map_append, planKey_zipWith, chainKeys, ← map_setKey htag,
    List.cons_append]
  show _ = (_, _) :: consecutive ((first :: rest).map setKey ++ [("Goal", goal.waypointOrder)])
  rw [consecutive_concat _ hlastKey, ← hgoalTag]
  rfl

/-! ## The assembler's side -/

/-- The rows of one tag, as the assembler gets them. -/
def fetchedRows (rows : List GridRow) (tag : String) : List CheckpointRow :=
  withTag tag (anchorQuery (rows.map checkpointRow))

theorem mem_fetchedRows {rows : List GridRow} {tag : String} (ht : tag ∈ anchorTags) {order : Int} :
    (∃ r ∈ fetchedRows rows tag, r.waypointOrder = order) ↔ HasAnchor rows tag order := by
  unfold fetchedRows withTag anchorQuery
  simp only [List.mem_filter, mem_sortBy, decide_eq_true_eq, List.mem_map]
  constructor
  · rintro ⟨r, ⟨⟨⟨g, hg, rfl⟩, -⟩, htag⟩, rfl⟩
    exact ⟨g, hg, htag, rfl⟩
  · rintro ⟨g, hg, rfl, rfl⟩
    exact ⟨checkpointRow g, ⟨⟨⟨g, hg, rfl⟩, ht⟩, rfl⟩, rfl⟩

theorem tag_of_mem_fetchedRows {rows : List GridRow} {tag : String} {r : CheckpointRow}
    (h : r ∈ fetchedRows rows tag) : r.tag = tag := by
  simpa using (List.mem_filter.mp h).2

theorem fetchedRows_ne_nil {rows : List GridRow} {tag : String} (ht : tag ∈ anchorTags) :
    fetchedRows rows tag ≠ [] ↔ ∃ r ∈ rows, r.tag = tag := by
  constructor
  · intro h
    obtain ⟨r, hr⟩ := List.exists_mem_of_ne_nil _ h
    obtain ⟨g, hg, htag, -⟩ := (mem_fetchedRows ht).mp ⟨r, hr, rfl⟩
    exact ⟨g, hg, htag⟩
  · rintro ⟨g, hg, htag⟩
    obtain ⟨r, hr, -⟩ := (mem_fetchedRows ht).mpr ⟨g, hg, htag, rfl⟩
    exact List.ne_nil_of_mem hr

/-- The first row of a tag has its least order. -/
theorem head_fetchedRows {rows : List GridRow} {tag : String} (ht : tag ∈ anchorTags)
    {r : CheckpointRow} (h : (fetchedRows rows tag).head? = some r) :
    IsLeastOrder rows tag r.waypointOrder := by
  obtain ⟨rest, hrest⟩ := List.head?_eq_some_iff.mp h
  have hsorted : (fetchedRows rows tag).Pairwise fun a b => queryKey a ≤ queryKey b :=
    (sortBy_pairwise queryKey _).filter _
  refine ⟨(mem_fetchedRows ht).mp ⟨r, by rw [hrest]; simp, rfl⟩, fun o ho => ?_⟩
  obtain ⟨r', hr', rfl⟩ := (mem_fetchedRows ht).mpr ho
  have htag := tag_of_mem_fetchedRows (List.mem_of_mem_head? h)
  have htag' := tag_of_mem_fetchedRows hr'
  rw [hrest] at hsorted hr'
  rcases List.mem_cons.mp hr' with rfl | hr'
  · exact le_refl _
  · have hle := (List.pairwise_cons.mp hsorted).1 r' hr'
    unfold queryKey at hle
    rw [htag, htag', Prod.Lex.toLex_le_toLex] at hle
    rcases hle with hlt | ⟨-, hle⟩
    · exact absurd hlt (lt_irrefl _)
    · exact hle

/-- The loop's variables after the rows. -/
def detected (rows : List GridRow) : Detected :=
  (anchorQuery (rows.map checkpointRow)).foldl Detected.add Detected.none

theorem detected_eq (rows : List GridRow) : detected rows =
    ⟨(fetchedRows rows "Spawn").head?.map CheckpointRow.anchor,
      (fetchedRows rows "Goal").head?.map CheckpointRow.anchor,
      fillCps (fetchedRows rows "Checkpoint") Dict.empty,
      fillCps (fetchedRows rows "LinkedCheckpoint") Dict.empty⟩ := by
  unfold detected
  rw [Detected.foldl_add]
  rfl

theorem detected_linked_iff {rows : List GridRow} :
    (detected rows).linked = true ↔ LinkedShape rows := by
  unfold Detected.linked LinkedShape
  rw [detected_eq]
  simp only [Bool.and_eq_true, decide_eq_true_eq, ne_eq, items_fillCps_eq_nil, Option.isSome_map,
    List.isSome_head?]
  have hplain : fetchedRows rows "Checkpoint" = [] ↔ ∀ r ∈ rows, r.tag ≠ "Checkpoint" := by
    rw [← not_iff_not]
    push Not
    exact fetchedRows_ne_nil (by decide)
  rw [← ne_eq, ← ne_eq, fetchedRows_ne_nil (by decide), fetchedRows_ne_nil (by decide), hplain,
    and_assoc]

/-- The keys of the assembler's chain on a linked map. -/
theorem detected_keys {rows : List GridRow} (h : LinkedShape rows) :
    ∃ orders goalOrder, SortedOrders rows "LinkedCheckpoint" orders ∧
      IsLeastOrder rows "Goal" goalOrder ∧
      (detected rows).ordered.map Anchor.key =
        (detected rows).spawn.toList.map Anchor.key ++
          (orders.map fun o => ("LinkedCheckpoint", o)) ++ [("Goal", goalOrder)] := by
  have hlinked := detected_linked_iff.mpr h
  obtain ⟨goal, hgoal⟩ : ∃ goal, (fetchedRows rows "Goal").head? = some goal := by
    rw [← Option.isSome_iff_exists, List.isSome_head?, fetchedRows_ne_nil (by decide)]
    exact h.2.2
  have hgoalTag := tag_of_mem_fetchedRows (List.mem_of_mem_head? hgoal)
  refine ⟨sortBy id (fillCps (fetchedRows rows "LinkedCheckpoint") Dict.empty).keys,
    goal.waypointOrder, ⟨?_, fun o => ?_⟩, head_fetchedRows (by decide) hgoal, ?_⟩
  · have hnd := (sortBy_perm id (fillCps (fetchedRows rows "LinkedCheckpoint")
      Dict.empty).keys).nodup_iff.mpr (Dict.keys_nodup _)
    exact (sortBy_pairwise id _).imp₂ (fun a b hab hne => lt_of_le_of_ne hab hne) hnd
  · rw [mem_sortBy, mem_keys_fillCps, mem_fetchedRows (by decide)]
  · unfold Detected.ordered Detected.cpsSource
    rw [if_pos hlinked, detected_eq]
    dsimp only
    rw [hgoal, List.map_append, List.map_append,
      orderedCps_fillCps fun r hr => tag_of_mem_fetchedRows hr]
    simp [Anchor.key, CheckpointRow.anchor, hgoalTag]

theorem detected_spawn (rows : List GridRow) :
    (∀ r ∈ rows, r.tag ≠ "Spawn") ∧ (detected rows).spawn = none ∨
      ∃ a order, (detected rows).spawn = some a ∧ a.key = ("Spawn", order) ∧
        IsLeastOrder rows "Spawn" order := by
  rw [detected_eq]
  cases hhead : (fetchedRows rows "Spawn").head? with
  | none =>
    refine Or.inl ⟨fun r hr htag => ?_, rfl⟩
    exact (fetchedRows_ne_nil (by decide)).mpr ⟨r, hr, htag⟩ (List.head?_eq_none_iff.mp hhead)
  | some r =>
    have htag := tag_of_mem_fetchedRows (List.mem_of_mem_head? hhead)
    exact Or.inr ⟨r.anchor, r.waypointOrder, rfl, Prod.ext htag rfl,
      head_fetchedRows (by decide) hhead⟩

theorem lookupKeys_eq (anchors : List Anchor) :
    lookupKeys anchors = consecutive (anchors.map Anchor.key) := by
  unfold lookupKeys consecutive
  rw [← List.map_tail, List.zip_map]
  rfl

/-- The chain has a `Spawn` anchor when there is a `Spawn` row. -/
theorem exists_spawn_iff {rows : List GridRow} (h : LinkedShape rows) :
    (∃ a ∈ (detected rows).ordered, a.tag = "Spawn") ↔ (detected rows).spawn.isSome := by
  obtain ⟨orders, goalOrder, -, -, hkeys⟩ := detected_keys h
  have hkey : (∃ a ∈ (detected rows).ordered, a.tag = "Spawn") ↔
      ∃ k ∈ (detected rows).ordered.map Anchor.key, k.1 = "Spawn" := by
    simp [Anchor.key]
  rw [hkey, hkeys]
  constructor
  · rintro ⟨k, hk, hks⟩
    cases hspawn : (detected rows).spawn with
    | some a => rfl
    | none =>
      rw [hspawn] at hk
      simp only [Option.toList_none, List.map_nil, List.nil_append, List.mem_append, List.mem_map,
        List.mem_singleton] at hk
      rcases hk with ⟨o, -, rfl⟩ | rfl <;> simp at hks
  · intro hsome
    obtain ⟨a, ha⟩ := Option.isSome_iff_exists.mp hsome
    rcases detected_spawn rows with ⟨-, hnone⟩ | ⟨a', o, ha', hkey', -⟩
    · rw [hnone] at ha
      simp at ha
    · rw [ha']
      exact ⟨a'.key, by simp, by rw [hkey']⟩

/-! ## The agreement -/

/-- When the keys are the same, no lookup fails on a map whose intervals are all scored. -/
theorem missing_none_of_keys {plans : List IntervalPlan} {anchors : List Anchor}
    (h : plans.map planKey = lookupKeys anchors) {σ : Type*}
    (candidates : List (CandidateCorridor σ)) (hall : AllScored plans candidates) :
    missingCorridorInInterval anchors candidates = none := by
  unfold missingCorridorInInterval
  rw [List.findIdx?_eq_none_iff, ← h]
  intro key hkey
  obtain ⟨plan, hplan, rfl⟩ := List.mem_map.mp hkey
  obtain ⟨c, hc, hscore, hck⟩ := hall plan hplan
  rw [List.all_eq_false]
  refine ⟨c, hc, ?_⟩
  obtain ⟨score, hscore⟩ := Option.isSome_iff_exists.mp hscore
  simp [hscore, hck]

theorem linkedShape_perm {rows fetched : List GridRow} (h : rows.Perm fetched) :
    LinkedShape rows ↔ LinkedShape fetched := by
  unfold LinkedShape
  simp only [h.mem_iff]

/-- The assembler reports a linked chain with a spawn for the linked shape and a `Spawn` row. -/
theorem assembler_linked_iff {rows fetched : List GridRow} (h : rows.Perm fetched) :
    ((assemblerAnchors fetched).1 = true ∧ ∃ a ∈ (assemblerAnchors fetched).2, a.tag = "Spawn") ↔
      LinkedShape rows ∧ ∃ r ∈ rows, r.tag = "Spawn" := by
  show (detected fetched).linked = true ∧ (∃ a ∈ (detected fetched).ordered, a.tag = "Spawn") ↔ _
  rw [detected_linked_iff, linkedShape_perm h]
  refine and_congr_right fun hshape => ?_
  rw [exists_spawn_iff hshape, detected_eq, Option.isSome_map, List.isSome_head?,
    fetchedRows_ne_nil (by decide)]
  simp only [h.mem_iff]

/-- Where both sides take the linked map and have a spawn, their keys differ in its order only. -/
theorem chains_of_linked {rows fetched : List GridRow} (h : rows.Perm fetched)
    (hlinked : (Anchors.ofSets (enumeratorSets rows)).takesLinkedBranch)
    (hspawn : ∃ r ∈ rows, r.tag = "Spawn") :
    ∃ spawnOrder orders goalOrder, IsLeastOrder rows "Spawn" spawnOrder ∧
      (planIntervals (enumeratorSets rows)).map planKey =
        consecutive (chainKeys 0 orders goalOrder) ∧
      lookupKeys (assemblerAnchors fetched).2 =
        consecutive (chainKeys spawnOrder orders goalOrder) := by
  have hmem := hasAnchor_perm h
  have hleast : ∀ tag o, IsLeastOrder fetched tag o → IsLeastOrder rows tag o := fun tag o hl =>
    ⟨(hmem tag o).mpr hl.1, fun o' ho' => hl.2 o' ((hmem tag o').mp ho')⟩
  obtain ⟨orders, goalOrder, horders, -, hgoal, hplans⟩ := planIntervals_keys hlinked
  obtain ⟨orders', goalOrder', horders', hgoal', hkeys⟩ :=
    detected_keys ((linkedShape_perm h).mp (takesLinkedBranch_iff.mp hlinked).2)
  obtain rfl : orders = orders' := horders.unique
    ⟨horders'.1, fun o => (horders'.2 o).trans (hmem _ o).symm⟩
  obtain rfl : goalOrder = goalOrder' := hgoal.unique (hleast _ _ hgoal')
  rcases detected_spawn fetched with ⟨hno, -⟩ | ⟨a, spawnOrder, ha, hkey, hs⟩
  · obtain ⟨r, hr, htag⟩ := hspawn
    exact absurd htag (hno r (h.mem_iff.mp hr))
  · refine ⟨spawnOrder, orders, goalOrder, hleast _ _ hs, hplans, ?_⟩
    show lookupKeys (detected fetched).ordered = _
    rw [lookupKeys_eq, hkeys, ha]
    simp [hkey, chainKeys]

/-- The enumerator and the assembler agree on the interval chain exactly when a linked map with a
    start has a `Spawn` row and the least order of its `Spawn` rows is zero. -/
theorem intervalChain_agrees_iff (rows fetched : List GridRow) (h : rows.Perm fetched) :
    Agree rows fetched ↔ SpawnFits rows := by
  unfold Agree SpawnFits
  rw [assembler_linked_iff h]
  constructor
  · rintro ⟨hbranch, hkeys⟩ hshape hstart
    have hlinked := takesLinkedBranch_iff.mpr ⟨hstart, hshape⟩
    obtain ⟨o, orders, goalOrder, hleast, hplans, hlookup⟩ :=
      chains_of_linked h hlinked (hbranch.mp hlinked).2
    have heq := (hkeys hlinked).1
    rw [hplans, hlookup] at heq
    have hspawn := consecutive_injective (by simp) heq
    rwa [← (Prod.mk.inj hspawn).2] at hleast
  · intro hfits
    have hbranch : (Anchors.ofSets (enumeratorSets rows)).takesLinkedBranch ↔
        LinkedShape rows ∧ ∃ r ∈ rows, r.tag = "Spawn" := by
      rw [takesLinkedBranch_iff]
      constructor
      · rintro ⟨hstart, hshape⟩
        obtain ⟨r, hr, htag, -⟩ := (hfits hshape hstart).1
        exact ⟨hshape, r, hr, htag⟩
      · rintro ⟨hshape, r, hr, htag⟩
        exact ⟨⟨r, hr, by rw [htag]; decide⟩, hshape⟩
    refine ⟨hbranch, fun hlinked => ?_⟩
    obtain ⟨o, orders, goalOrder, hleast, hplans, hlookup⟩ :=
      chains_of_linked h hlinked (hbranch.mp hlinked).2
    obtain ⟨hstart, hshape⟩ := takesLinkedBranch_iff.mp hlinked
    obtain rfl : o = 0 := hleast.unique (hfits hshape hstart)
    have heq := hplans.trans hlookup.symm
    exact ⟨heq, fun candidates hall => missing_none_of_keys heq candidates hall⟩

/-- A linked map with a `StartFinish` block for its start. -/
def startFinishRows : List GridRow :=
  [⟨0, "StartFinish", 0, ⟨0, 9, 0⟩⟩, ⟨1, "LinkedCheckpoint", 1, ⟨4, 9, 0⟩⟩,
    ⟨2, "Goal", 0, ⟨8, 9, 0⟩⟩]

theorem intervalChain_agrees_iff_startFinish :
    Agree startFinishRows startFinishRows ↔ SpawnFits startFinishRows :=
  intervalChain_agrees_iff startFinishRows startFinishRows (List.Perm.refl _)

/-- The enumerator plans a chain for it from `("Spawn", 0)`; the assembler finds no spawn. -/
theorem startFinish_not_agree : ¬ Agree startFinishRows startFinishRows := by
  intro h
  have hbranch : (Anchors.ofSets (enumeratorSets startFinishRows)).takesLinkedBranch :=
    takesLinkedBranch_iff.mpr ⟨⟨_, List.mem_cons_self, by decide⟩,
      ⟨⟨1, "LinkedCheckpoint", 1, ⟨4, 9, 0⟩⟩, by decide, rfl⟩, by decide,
      ⟨2, "Goal", 0, ⟨8, 9, 0⟩⟩, by decide, rfl⟩
  obtain ⟨-, r, hr, htag⟩ := (assembler_linked_iff (List.Perm.refl _)).mp (h.1.mp hbranch)
  revert htag
  revert r
  decide

end TraxMania.Generation
