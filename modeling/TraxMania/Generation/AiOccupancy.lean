import TraxMania.Generation.AiInterval
import Mathlib.Data.List.Chain
import Mathlib.Order.Lattice

/-
  Occupancy in the beam search: the path of every beam steps to free cells, clear of the footprints
  of its own blocks, and always nearer to the destination; the occupied cells change only when a
  beam is taken, by the footprints of its blocks.
-/

namespace TraxMania.Generation.Ai

open TraxMania.Grid Lib.SortBy Route

variable {σ : Type}

/-! ## Steps -/

/-- A unit step along X or Z. -/
def UnitStep (a b : Cell) : Prop :=
  b.y = a.y ∧ ((b.x = a.x + 1 ∨ b.x = a.x - 1) ∧ b.z = a.z ∨
    b.x = a.x ∧ (b.z = a.z + 1 ∨ b.z = a.z - 1))

/-- The steps left to a cell over or under the destination. -/
def stepsLeft (dst cell : Cell) : Nat := (dst.x - cell.x).natAbs + (dst.z - cell.z).natAbs

theorem directionToward_cases (src dst : Cell) :
    directionToward src dst = 0 ∧ (dst.z - src.z).natAbs ≤ (dst.x - src.x).natAbs ∧ src.x ≤ dst.x ∨
      directionToward src dst = 2 ∧ (dst.z - src.z).natAbs ≤ (dst.x - src.x).natAbs ∧ dst.x < src.x ∨
      directionToward src dst = 1 ∧ (dst.x - src.x).natAbs < (dst.z - src.z).natAbs ∧ src.z ≤ dst.z ∨
      directionToward src dst = 3 ∧ (dst.x - src.x).natAbs < (dst.z - src.z).natAbs ∧
        dst.z < src.z := by
  unfold directionToward
  dsimp only
  rw [Int.abs_eq_natAbs, Int.abs_eq_natAbs]
  split
  · split
    · exact Or.inl ⟨rfl, by omega, by omega⟩
    · exact Or.inr (Or.inl ⟨rfl, by omega, by omega⟩)
  · split
    · exact Or.inr (Or.inr (Or.inl ⟨rfl, by omega, by omega⟩))
    · exact Or.inr (Or.inr (Or.inr ⟨rfl, by omega, by omega⟩))

theorem advance_of_zero (c : Cell) : advance c 0 = ⟨c.x + 1, c.y, c.z⟩ := by
  unfold advance dirByRot
  simp

theorem advance_of_one (c : Cell) : advance c 1 = ⟨c.x, c.y, c.z + 1⟩ := by
  unfold advance dirByRot
  simp

theorem advance_of_two (c : Cell) : advance c 2 = ⟨c.x - 1, c.y, c.z⟩ := by
  unfold advance dirByRot
  simp [Int.sub_eq_add_neg]

theorem advance_of_three (c : Cell) : advance c 3 = ⟨c.x, c.y, c.z - 1⟩ := by
  unfold advance dirByRot
  simp [Int.sub_eq_add_neg]

theorem unitStep_advance (src dst : Cell) : UnitStep src (advance src (directionToward src dst)) := by
  unfold UnitStep
  rcases directionToward_cases src dst with h | h | h | h
  · rw [h.1, advance_of_zero]
    exact ⟨rfl, Or.inl ⟨Or.inl rfl, rfl⟩⟩
  · rw [h.1, advance_of_two]
    exact ⟨rfl, Or.inl ⟨Or.inr rfl, rfl⟩⟩
  · rw [h.1, advance_of_one]
    exact ⟨rfl, Or.inr ⟨rfl, Or.inl rfl⟩⟩
  · rw [h.1, advance_of_three]
    exact ⟨rfl, Or.inr ⟨rfl, Or.inr rfl⟩⟩

/-- A step from a cell that has not arrived is one step nearer. -/
theorem stepsLeft_advance {src dst : Cell} (h : ¬ ArrivedXZ src dst) :
    stepsLeft dst (advance src (directionToward src dst)) + 1 = stepsLeft dst src := by
  unfold ArrivedXZ at h
  rw [Int.abs_eq_natAbs, Int.abs_eq_natAbs] at h
  unfold stepsLeft
  rcases directionToward_cases src dst with hd | hd | hd | hd
  · rw [hd.1, advance_of_zero]
    dsimp only
    omega
  · rw [hd.1, advance_of_two]
    dsimp only
    omega
  · rw [hd.1, advance_of_one]
    dsimp only
    omega
  · rw [hd.1, advance_of_three]
    dsimp only
    omega

/-! ## Clean beams -/

/-- The footprint of a placed block, by the catalogue entry it was placed for. -/
def footprintOf (l : AiBlock σ × CatalogueEntry) : List Cell :=
  footprintCells l.1.cell l.1.rotation l.2.info.footprintX

/-- The footprints of placed blocks. -/
def laidCells (laid : List (AiBlock σ × CatalogueEntry)) : Finset Cell :=
  (laid.flatMap footprintOf).toFinset

theorem laidCells_concat (laid : List (AiBlock σ × CatalogueEntry))
    (l : AiBlock σ × CatalogueEntry) :
    laidCells (laid ++ [l]) = laidCells laid ∪ (footprintOf l).toFinset := by
  unfold laidCells
  rw [List.flatMap_append, List.toFinset_append, List.flatMap_singleton]

theorem mem_laidCells {laid : List (AiBlock σ × CatalogueEntry)} {c : Cell} :
    c ∈ laidCells laid ↔ ∃ l ∈ laid, c ∈ footprintOf l := by
  unfold laidCells
  rw [List.mem_toFinset, List.mem_flatMap]

/-- A path of blocks from the source: one block for each step, at the cell of the step, on cells
that were free and that no earlier block covers. -/
structure CleanPath (args : IntervalArgs σ) (occupied : Finset Cell) (blocks : List (AiBlock σ))
    (pathCells : List Cell) (laid : List (AiBlock σ × CatalogueEntry)) : Prop where
  placed : laid.map Prod.fst = blocks
  entries : ∀ l ∈ laid, l.2 ∈ args.catalogue ∧ l.1.family = l.2.family ∧ l.1.name = l.2.name
  path : pathCells = args.srcCell :: blocks.map fun b : AiBlock σ => b.cell
  steps : pathCells.IsChain UnitStep
  nodup : pathCells.Nodup
  free : ∀ b ∈ blocks, b.cell ∉ occupied
  apart : laid.Pairwise fun earlier later => later.1.cell ∉ footprintOf earlier

/-- One block more, a step on, in a free cell that no block covers. -/
theorem CleanPath.concat {args : IntervalArgs σ} {occupied : Finset Cell}
    {blocks : List (AiBlock σ)} {pathCells : List Cell} {laid : List (AiBlock σ × CatalogueEntry)}
    (h : CleanPath args occupied blocks pathCells laid) {block : AiBlock σ} {entry : CatalogueEntry}
    (hentry : entry ∈ args.catalogue ∧ block.family = entry.family ∧ block.name = entry.name)
    (hstep : ∀ c, pathCells.getLast? = some c → UnitStep c block.cell)
    (hnew : block.cell ∉ pathCells) (hfree : block.cell ∉ occupied)
    (hclear : block.cell ∉ laidCells laid) :
    CleanPath args occupied (blocks ++ [block]) (pathCells ++ [block.cell])
      (laid ++ [(block, entry)]) where
  placed := by
    rw [List.map_append, h.placed]
    rfl
  entries := by
    intro l hl
    rcases List.mem_append.mp hl with hl | hl
    · exact h.entries l hl
    · rw [List.mem_singleton.mp hl]
      exact hentry
  path := by
    rw [h.path, List.map_append]
    rfl
  steps := by
    rw [List.isChain_append]
    refine ⟨h.steps, List.isChain_singleton _, fun c hc d hd => ?_⟩
    rw [← Option.some.inj hd]
    exact hstep c hc
  nodup := by
    rw [← List.concat_eq_append]
    exact h.nodup.concat hnew
  free := by
    intro b hb
    rcases List.mem_append.mp hb with hb | hb
    · exact h.free b hb
    · rw [List.mem_singleton.mp hb]
      exact hfree
  apart := by
    rw [List.pairwise_append]
    refine ⟨h.apart, List.pairwise_singleton _ _, fun e he l hl => ?_⟩
    rw [List.mem_singleton.mp hl]
    exact fun hmem => hclear (mem_laidCells.mpr ⟨e, he, hmem⟩)

/-- A beam with its blocks: its path is clean, ends where it stands, nowhere nearer to the
destination, and its cells are the footprints. -/
structure Beam.Clean (args : IntervalArgs σ) (occupied : Finset Cell) (b : Beam σ)
    (laid : List (AiBlock σ × CatalogueEntry)) : Prop where
  clean : CleanPath args occupied b.blocks b.pathCells laid
  current : b.pathCells.getLast? = some b.currentCell
  nearest : ∀ c ∈ b.pathCells, stepsLeft args.dstCell b.currentCell ≤ stepsLeft args.dstCell c
  cells : b.intervalCells = laidCells laid

section Search

variable [Decimals σ]

theorem clean_initial (args : IntervalArgs σ) (occupied : Finset Cell) :
    (initialBeam args).Clean args occupied [] where
  clean :=
    { placed := rfl
      entries := fun l hl => absurd hl List.not_mem_nil
      path := rfl
      steps := List.isChain_singleton _
      nodup := List.nodup_singleton _
      free := fun b hb => absurd hb List.not_mem_nil
      apart := List.Pairwise.nil }
  current := rfl
  nearest c hc := by
    rw [List.mem_singleton.mp hc]
    exact le_refl _
  cells := rfl

/-- The path of a child: one step to a free cell, nearer to the destination. -/
theorem clean_child {args : IntervalArgs σ} {occupied : Finset Cell} {b : Beam σ}
    {laid : List (AiBlock σ × CatalogueEntry)} (hb : b.Clean args occupied laid)
    (hfar : ¬ ArrivedXZ b.currentCell args.dstCell) {entry : CatalogueEntry}
    (hentry : entry ∈ args.catalogue)
    (hfree : advance b.currentCell (directionToward b.currentCell args.dstCell) ∉ occupied)
    (hclear : advance b.currentCell (directionToward b.currentCell args.dstCell) ∉
      b.intervalCells) :
    let rotation := directionToward b.currentCell args.dstCell
    let nextCell := advance b.currentCell rotation
    let s := scoreEntry args occupied b nextCell rotation entry
    (childBeam b nextCell rotation s).Clean args occupied (laid ++ [(s.block, entry)]) := by
  intro rotation nextCell s
  have hnearer : stepsLeft args.dstCell nextCell + 1 = stepsLeft args.dstCell b.currentCell :=
    stepsLeft_advance hfar
  have hnew : nextCell ∉ b.pathCells := by
    intro hmem
    have hle := hb.nearest nextCell hmem
    omega
  have hstep : ∀ c, b.pathCells.getLast? = some c → UnitStep c nextCell := by
    intro c hc
    rw [hb.current] at hc
    rw [← Option.some.inj hc]
    exact unitStep_advance b.currentCell args.dstCell
  rw [hb.cells] at hclear
  refine ⟨hb.clean.concat ⟨hentry, rfl, rfl⟩ hstep hnew hfree hclear, List.getLast?_concat, ?_, ?_⟩
  · intro c hc
    rcases List.mem_append.mp hc with hc | hc
    · have hle := hb.nearest c hc
      show stepsLeft args.dstCell nextCell ≤ _
      omega
    · rw [List.mem_singleton.mp hc]
      exact le_refl _
  · rw [laidCells_concat, ← hb.cells]
    rfl

/-! ## The moments of the search -/

/-- One turn of the loop; `none` is a `break`. -/
def searchTurn (args : IntervalArgs σ) (occupied : Finset Cell) (s : BeamSearch σ) :
    Option (BeamSearch σ) :=
  let children := (nextLive args.dstCell s.live).flatMap (expandBeam args occupied)
  if children = [] then none
  else
    some ⟨sliceTo (sortBy (fun b => -b.scoreSum) children) args.beamWidth,
      s.completed ++ arrivedBeams args.dstCell s.live, true⟩

/-- The variables at the head of the loop, before its turn `t`. -/
inductive Moment (args : IntervalArgs σ) (occupied : Finset Cell) : Nat → BeamSearch σ → Prop
  | start : Moment args occupied 0 ⟨[initialBeam args], [], false⟩
  | turn {t : Nat} {s s' : BeamSearch σ} : Moment args occupied t s → t < args.maxDepth.toNat →
      searchTurn args occupied s = some s' → Moment args occupied (t + 1) s'

theorem searchBeams_succ (args : IntervalArgs σ) (occupied : Finset Cell) (turns : Nat)
    (s : BeamSearch σ) :
    searchBeams args occupied (turns + 1) s =
      match searchTurn args occupied s with
      | none => { s with completed := s.completed ++ arrivedBeams args.dstCell s.live }
      | some s' => searchBeams args occupied turns s' := by
  rw [searchBeams]
  unfold searchTurn
  dsimp only
  by_cases h : (nextLive args.dstCell s.live).flatMap (expandBeam args occupied) = []
  · rw [if_pos h, if_pos h]
  · rw [if_neg h, if_neg h]

/-- The search ends in a moment, with arrived live beams among the completed ones. -/
theorem searchBeams_moment {args : IntervalArgs σ} {occupied : Finset Cell} {turns t : Nat}
    {s : BeamSearch σ} (hs : Moment args occupied t s) (ht : t + turns = args.maxDepth.toNat) :
    ∃ t' s', Moment args occupied t' s' ∧ t' ≤ args.maxDepth.toNat ∧
      (searchBeams args occupied turns s).live = s'.live ∧
      ∀ b ∈ (searchBeams args occupied turns s).completed, b ∈ s'.completed ∨ b ∈ s'.live := by
  induction turns generalizing t s with
  | zero => exact ⟨t, s, hs, by omega, rfl, fun b hb => Or.inl hb⟩
  | succ turns ih =>
    rw [searchBeams_succ]
    cases hturn : searchTurn args occupied s with
    | none =>
      refine ⟨t, s, hs, by omega, rfl, fun b hb => ?_⟩
      rcases List.mem_append.mp hb with hb | hb
      · exact Or.inl hb
      · exact Or.inr (List.mem_of_mem_filter hb)
    | some s' => exact ih (hs.turn (by omega) hturn) (by omega)

theorem searched_moment (args : IntervalArgs σ) (occupied : Finset Cell) :
    ∃ t s, Moment args occupied t s ∧ t ≤ args.maxDepth.toNat ∧
      (searched args occupied).live = s.live ∧
      ∀ b ∈ (searched args occupied).completed, b ∈ s.completed ∨ b ∈ s.live := by
  obtain ⟨t, s, hs, ht, hlive, hcompleted⟩ := searchBeams_moment
    (Moment.start : Moment args occupied 0 _) (Nat.zero_add _)
  refine ⟨t, s, hs, ht, hlive, fun b hb => ?_⟩
  rcases List.mem_append.mp hb with hb | hb
  · exact hcompleted b hb
  · have hmem := List.mem_of_mem_filter hb
    rw [hlive] at hmem
    exact Or.inr hmem

/-! ## Every moment is clean -/

/-- A clean beam of at most `t` blocks. -/
def CleanUpTo (args : IntervalArgs σ) (occupied : Finset Cell) (t : Nat) (b : Beam σ) : Prop :=
  b.depth ≤ t ∧ ∃ laid, b.Clean args occupied laid

omit [Decimals σ] in
theorem far_of_not_reached {args : IntervalArgs σ} {occupied : Finset Cell} {b : Beam σ}
    {laid : List (AiBlock σ × CatalogueEntry)} (hfar : ¬ ArrivedXZ args.srcCell args.dstCell)
    (hb : b.Clean args occupied laid) (h : ¬ b.ReachedDst args.dstCell) :
    ¬ ArrivedXZ b.currentCell args.dstCell := by
  intro harrived
  have hdepth : b.blocks = [] := by
    by_contra hne
    exact h ⟨List.length_pos_iff.mpr hne, harrived⟩
  have hpath := hb.clean.path
  rw [hdepth] at hpath
  have hcurrent := hb.current
  rw [hpath] at hcurrent
  rw [← Option.some.inj hcurrent] at harrived
  exact hfar harrived

theorem cleanUpTo_expand {args : IntervalArgs σ} {occupied : Finset Cell} {t : Nat}
    {b child : Beam σ} (hfar : ¬ ArrivedXZ args.srcCell args.dstCell)
    (hb : CleanUpTo args occupied t b) (hreached : ¬ b.ReachedDst args.dstCell)
    (h : child ∈ expandBeam args occupied b) : CleanUpTo args occupied (t + 1) child := by
  obtain ⟨hdepth, laid, hclean⟩ := hb
  unfold expandBeam at h
  dsimp only at h
  split at h
  · cases h
  · next hblocked =>
    obtain ⟨s, hs, rfl⟩ := List.mem_map.mp h
    obtain ⟨entry, hentry, rfl⟩ := List.mem_map.mp ((mem_sortBy _ _ _).mp (mem_of_mem_sliceTo hs))
    refine ⟨?_, _, clean_child hclean (far_of_not_reached hfar hclean hreached) hentry
      (fun h => hblocked (Or.inl h)) (fun h => hblocked (Or.inr h))⟩
    show (b.blocks ++ [_]).length ≤ t + 1
    rw [List.length_append]
    exact Nat.succ_le_succ hdepth

theorem moment_clean {args : IntervalArgs σ} {occupied : Finset Cell} {t : Nat} {s : BeamSearch σ}
    (hfar : ¬ ArrivedXZ args.srcCell args.dstCell) (hs : Moment args occupied t s) :
    (∀ b ∈ s.live, CleanUpTo args occupied t b) ∧
      ∀ b ∈ s.completed, CleanUpTo args occupied t b := by
  induction hs with
  | start =>
    refine ⟨fun b hb => ?_, fun b hb => absurd hb List.not_mem_nil⟩
    rw [List.mem_singleton.mp hb]
    exact ⟨le_refl 0, [], clean_initial args occupied⟩
  | @turn t s s' _ _ hturn ih =>
    unfold searchTurn at hturn
    dsimp only at hturn
    split at hturn
    · cases hturn
    · obtain rfl := Option.some.inj hturn
      refine ⟨fun b hb => ?_, fun b hb => ?_⟩
      · have hchild := (mem_sortBy _ _ _).mp (mem_of_mem_sliceTo hb)
        obtain ⟨parent, hparent, hb⟩ := List.mem_flatMap.mp hchild
        obtain ⟨hlive, hnot⟩ := List.mem_filter.mp hparent
        exact cleanUpTo_expand hfar (ih.1 parent hlive) (by simpa using hnot) hb
      · have hold : CleanUpTo args occupied t b := by
          rcases List.mem_append.mp hb with hb | hb
          · exact ih.2 b hb
          · exact ih.1 b (List.mem_of_mem_filter hb)
        exact ⟨le_trans hold.1 (Nat.le_succ t), hold.2⟩

/-- At most `beam_width` beams are live, the initial one apart when that is zero. -/
theorem moment_width {args : IntervalArgs σ} {occupied : Finset Cell} {t : Nat} {s : BeamSearch σ}
    (hwidth : 0 ≤ args.beamWidth) (hs : Moment args occupied t s) :
    (s.live.length : Int) ≤ max 1 args.beamWidth := by
  cases hs with
  | start => exact le_max_left 1 _
  | turn _ _ hturn =>
    unfold searchTurn at hturn
    dsimp only at hturn
    split at hturn
    · cases hturn
    · obtain rfl := Option.some.inj hturn
      dsimp only
      unfold sliceTo
      rw [if_pos hwidth, List.length_take]
      omega

/-! ## The result -/

/-- What a call leaves: a clean path no longer than the depth cap, and the occupied cells as they
were, or with the footprints of the path when the interval is not rejected. -/
structure Occupies (args : IntervalArgs σ) (occupied : Finset Cell)
    (result : IntervalResult σ × Finset Cell) (laid : List (AiBlock σ × CatalogueEntry)) :
    Prop where
  clean : CleanPath args occupied result.1.blocks result.1.pathCells laid
  short : (result.1.blocks.length : Int) ≤ max 0 args.maxDepth
  rejected : result.1.rejectReason ≠ none → result.2 = occupied
  accepted : result.1.rejectReason = none → result.2 = occupied ∪ laidCells laid

theorem occupies_empty (args : IntervalArgs σ) (occupied : Finset Cell)
    (reason : Option RejectReason) (detail : Option String) :
    Occupies args occupied
      ({ emptyResult args with rejectReason := reason, detail := detail }, occupied) [] where
  clean := (clean_initial args occupied).clean
  short := le_max_left 0 _
  rejected _ := rfl
  accepted _ := (Finset.union_empty occupied).symm

omit [Decimals σ] in
theorem occupies_beam {args : IntervalArgs σ} {occupied : Finset Cell} {t : Nat} {b : Beam σ}
    (ht : t ≤ args.maxDepth.toNat) (hdepth : b.depth ≤ t)
    {laid : List (AiBlock σ × CatalogueEntry)} (hb : b.Clean args occupied laid) :
    (∀ reason detail, Occupies args occupied (resultOf b (some reason) detail, occupied) laid) ∧
      Occupies args occupied (resultOf b none none, occupied ∪ b.intervalCells) laid := by
  have hshort : ((b.blocks.length : Nat) : Int) ≤ max 0 args.maxDepth := by
    unfold Beam.depth at hdepth
    omega
  refine ⟨fun reason detail => ⟨hb.clean, hshort, fun _ => rfl, fun h => ?_⟩,
    ⟨hb.clean, hshort, fun h => absurd rfl h, fun _ => by rw [hb.cells]⟩⟩
  exact absurd h (Option.some_ne_none reason)

/-- Whatever the outcome, a call keeps the occupied cells consistent. -/
theorem generateInterval_occupies (args : IntervalArgs σ) (occupied : Finset Cell) :
    ∃ laid, Occupies args occupied (generateInterval args occupied) laid := by
  obtain ⟨t, s, hs, ht, hlive, hcompleted⟩ := searched_moment args occupied
  rcases generateInterval_cases args occupied with ⟨-, heq⟩ | ⟨hfar, best, hbest, heq⟩ | ⟨hfar, heq⟩
  · rw [heq]
    exact ⟨[], occupies_empty args occupied none none⟩
  · have hclean : CleanUpTo args occupied t best := by
      rcases hcompleted best hbest with h | h
      · exact (moment_clean hfar hs).2 best h
      · exact (moment_clean hfar hs).1 best h
    obtain ⟨hdepth, laid, hb⟩ := hclean
    rw [heq]
    exact ⟨laid, (occupies_beam ht hdepth hb).2⟩
  · rw [heq]
    unfold rejectedResult
    split
    · split
      · exact ⟨[], occupies_empty args occupied _ _⟩
      · next b hbest =>
        have hmem := List.argmax_mem hbest
        rw [hlive] at hmem
        obtain ⟨hdepth, laid, hb⟩ := (moment_clean hfar hs).1 b hmem
        exact ⟨laid, (occupies_beam ht hdepth hb).1 _ _⟩
    · exact ⟨[], occupies_empty args occupied _ _⟩

/-- The beam search respects occupancy, and its width at every moment. -/
theorem beamSearch_consistent (args : IntervalArgs σ) (occupied : Finset Cell) :
    (∃ laid, Occupies args occupied (generateInterval args occupied) laid) ∧
      (0 ≤ args.beamWidth → ∀ t s, Moment args occupied t s →
        (s.live.length : Int) ≤ max 1 args.beamWidth) :=
  ⟨generateInterval_occupies args occupied, fun hwidth _ _ hs => moment_width hwidth hs⟩

end Search

/-- A depth cap below zero is exceeded by the empty path, and a width of zero by the initial
beam. -/
theorem caps_not_kept :
    ¬ ((generateInterval { straightWalk 0 with maxDepth := -1 } ∅).1.blocks.length : Int) ≤ -1 ∧
      ∃ s, Moment { straightWalk 0 with beamWidth := 0 } ∅ 0 s ∧ ¬ (s.live.length : Int) ≤ 0 := by
  refine ⟨by omega, _, Moment.start, ?_⟩
  decide

end TraxMania.Generation.Ai
