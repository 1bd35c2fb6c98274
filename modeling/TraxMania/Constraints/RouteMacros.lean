import Mathlib.Data.String.Basic
import TraxMania.Constraints.RouteJumps
import TraxMania.Lib.Extreme
import TraxMania.Lib.Loop
import TraxMania.Lib.Windows

/-
  `constraints/route_macros.py`, `canonical_macro`: a run of placements as block names and steps,
  each step in the frame of the block before, the same for the run and its reverse.
-/

namespace TraxMania.RouteMacros

open TraxMania.Grid TraxMania.Catalogue TraxMania.Constraints.RouteSequences
  TraxMania.RouteJumps Lib
open TraxMania.Constraints (localOffset_mod localOffset_add rotateVector_localOffset)

/-! ## The encoding -/

/-- `blocks, steps`. -/
structure Encoded where
  blocks : List String
  steps : List (Cell × Int)
deriving DecidableEq

/-- `encode(seq)`. -/
def encode (seq : List Placed) : Encoded :=
  ⟨seq.map Placed.name, (seq.zip seq.tail).map fun ab => step ab.1 ab.2⟩

/-- The key of the `min`: lists of numbers are compared entry by entry. -/
def encodedKey (e : Encoded) : List String ×ₗ List (Cell ×ₗ Int) :=
  toLex (e.blocks, e.steps.map fun s => toLex s)

/-- `chosen`. -/
def chosen (run : List Placed) : Encoded :=
  Extreme.minBy encodedKey (encode run) (encode run.reverse)

/-- `canonical_macro(run)`, with `sha256(json.dumps(chosen))` as `signature`. -/
def canonicalMacro (signature : Encoded → String) (run : List Placed) : String × Encoded :=
  (signature (chosen run), chosen run)

/-! ## Turned, moved and replayed -/

/-- A placement after `k` quarter turns of the map. -/
def turned (k : Int) (p : Placed) : Placed :=
  ⟨p.name, (p.rotation + k) % 4, rotateVector p.pos k⟩

/-- A placement after a translation of the map. -/
def moved (v : Cell) (p : Placed) : Placed := { p with pos := p.pos + v }

/-- One step on from a placement. -/
def applyStep (cur : Placed) (name : String) (s : Cell × Int) : Placed :=
  ⟨name, (cur.rotation + s.2) % 4, cur.pos + rotateVector s.1 cur.rotation⟩

/-- The placements after `cur`. -/
def replayFrom (cur : Placed) : List (String × Cell × Int) → List Placed
  | [] => []
  | (name, s) :: rest => applyStep cur name s :: replayFrom (applyStep cur name s) rest

/-- The steps one after the other, from a first placement on. -/
def replay (first : Option Placed) (e : Encoded) : List Placed :=
  match first, e.blocks with
  | some p, name :: names =>
    normal { p with name := name } :: replayFrom (normal { p with name := name }) (names.zip e.steps)
  | _, _ => []

theorem encodedKey_injective : Function.Injective encodedKey := by
  intro e e' h
  have h' : (e.blocks, e.steps.map fun s => toLex s) =
      (e'.blocks, e'.steps.map fun s => toLex s) := toLex.injective h
  obtain ⟨hblocks, hsteps⟩ := Prod.mk.inj h'
  have heq : e.steps = e'.steps := List.map_injective_iff.mpr toLex.injective hsteps
  cases e
  cases e'
  cases hblocks
  cases heq
  rfl

/-- A change of the placements that keeps names and steps keeps the encoding. -/
theorem encode_map {f : Placed → Placed} (hname : ∀ p, (f p).name = p.name)
    (hstep : ∀ a b, step (f a) (f b) = step a b) (run : List Placed) :
    encode (run.map f) = encode run := by
  unfold encode
  have hzip : (run.map f).zip (run.map f).tail = (run.zip run.tail).map (Prod.map f f) := by
    rw [← List.map_tail, List.zip_map]
  rw [hzip, List.map_map, List.map_map]
  congr 1
  · exact List.map_congr_left fun p _ => hname p
  · exact List.map_congr_left fun ab _ => hstep ab.1 ab.2

theorem chosen_map {f : Placed → Placed} (hname : ∀ p, (f p).name = p.name)
    (hstep : ∀ a b, step (f a) (f b) = step a b) (run : List Placed) :
    chosen (run.map f) = chosen run := by
  unfold chosen
  rw [← List.map_reverse, encode_map hname hstep, encode_map hname hstep]

theorem rotateVector_diff (v w : Cell) (k : Int) :
    rotateVector v k - rotateVector w k = rotateVector (v - w) k := by
  have h := rotateVector_sum (v - w) w k
  rw [Cell.sub_add_self] at h
  rw [h]
  refine Cell.ext ?_ ?_ ?_
  · simp
  · simp
  · simp

theorem step_turned (k : Int) (a b : Placed) : step (turned k a) (turned k b) = step a b := by
  unfold step turned
  dsimp only
  rw [rotateVector_diff, localOffset_mod, localOffset_add]
  congr 1
  omega

theorem step_moved (v : Cell) (a b : Placed) : step (moved v a) (moved v b) = step a b := by
  unfold step moved
  dsimp only
  congr 2
  refine Cell.ext ?_ ?_ ?_
  · simp
  · simp
  · simp

/-- A step leads from the placement it was taken from to the next. -/
theorem applyStep_step (a b : Placed) : applyStep (normal a) b.name (step a b) = normal b := by
  unfold applyStep normal step
  dsimp only
  rw [rotateVector_mod, rotateVector_localOffset, Cell.add_sub_of]
  congr 1
  omega

theorem replayFrom_steps (a : Placed) (run : List Placed) :
    replayFrom (normal a)
        ((run.map Placed.name).zip (((a :: run).zip run).map fun ab => step ab.1 ab.2)) =
      run.map normal := by
  induction run generalizing a with
  | nil => rfl
  | cons b run ih =>
    rw [List.zip_cons_cons, List.map_cons, List.map_cons, List.zip_cons_cons, replayFrom,
      applyStep_step, ih, List.map_cons]

/-- The encoding of a run leads through the run. -/
theorem replay_encode (run : List Placed) : replay run.head? (encode run) = run.map normal := by
  cases run with
  | nil => rfl
  | cons a run =>
    have h := replayFrom_steps a run
    exact congrArg (normal a :: ·) h

/-! ## Canonical and replayable -/

/-- A run, its reverse and the run turned or moved are one macro, and its steps lead through the
    placements of the run or of its reverse. -/
theorem canonical_macro_replays (signature : Encoded → String) (run : List Placed) :
    canonicalMacro signature run.reverse = canonicalMacro signature run ∧
      (∀ k, canonicalMacro signature (run.map (turned k)) = canonicalMacro signature run) ∧
      (∀ v, canonicalMacro signature (run.map (moved v)) = canonicalMacro signature run) ∧
      (replay run.head? (canonicalMacro signature run).2 = run.map normal ∨
        replay run.reverse.head? (canonicalMacro signature run).2 = run.reverse.map normal) := by
  have hrun : ∀ run', chosen run' = chosen run →
      canonicalMacro signature run' = canonicalMacro signature run := by
    intro run' h
    unfold canonicalMacro
    rw [h]
  refine ⟨hrun _ ?_, fun k => hrun _ ?_, fun v => hrun _ ?_, ?_⟩
  · unfold chosen
    rw [List.reverse_reverse]
    exact Extreme.minBy_comm encodedKey_injective _ _
  · exact chosen_map (f := turned k) (fun _ => rfl) (step_turned k) run
  · exact chosen_map (f := moved v) (fun _ => rfl) (step_moved v) run
  · have hmin := Extreme.minBy_eq_or encodedKey (encode run) (encode run.reverse)
    unfold canonicalMacro chosen
    rcases hmin with h | h
    · exact Or.inl (by rw [h]; exact replay_encode run)
    · exact Or.inr (by rw [h]; exact replay_encode run.reverse)

end TraxMania.RouteMacros

/-
  `constraints/route_macros.py`, `extract_runs`: chains of through-pieces, blocks with neighbours on
  opposing sides, and the runs that are cut from them.

  Every through-piece stores one pair of opposing neighbours. A walk goes on to the neighbour of the
  pair that it does not come from. Where it comes from neither, it goes on to the first.

  A mined run is made of distinct rows in face contact. That each inner one has its two neighbours
  on opposing sides fails where a walk comes into a piece from a neighbour that is not of its stored
  pair, as at a crossing: the walk turns there.
-/

namespace TraxMania.RouteMacros

open TraxMania.Grid TraxMania.Catalogue TraxMania.Constraints.RouteSequences
  TraxMania.RouteJumps Lib

/-! ## Links -/

/-- `world`: a block without a ground variant, or with one of no units, covers its own cell. -/
def worldCells (catalogue : Dict String BlockDef) (p : Placed) : List Cell :=
  let cells : List Cell :=
    match (catalogue.get? p.name).bind fun block => block.variant "ground" 0 with
    | some variant =>
      if variant.units.isEmpty then [⟨0, 0, 0⟩]
      else variant.units.map fun u => rotateOffset u.offset p.rotation variant.size
    | none => [⟨0, 0, 0⟩]
  cells.map fun c => p.pos + c

section Links

variable (catalogue : Dict String BlockDef) (placements : List Placed)

/-- The pairs `(i, j)` of the loops over `cells_of`. -/
def contacts : List (Nat × Nat) :=
  placements.zipIdx.flatMap fun pi => (worldCells catalogue pi.1).flatMap fun cell =>
    contactDeltas.filterMap fun d =>
      ((ownerOf (worldCells catalogue) placements).get? (cell + d)).map fun j => (pi.2, j)

/-- `links`. -/
def links : Dict Nat (Finset Nat) := (contacts catalogue placements).foldl addLink Dict.empty

end Links

/-! ## Through-pieces -/

section Forward

variable (order : SetOrder) (catalogue : Dict String BlockDef) (placements : List Placed)

/-- `pairs`. -/
def opposingPairs (dirs : Dict Cell Nat) : List (Nat × Nat) :=
  dirs.items.filterMap fun sa =>
    (dirs.get? (opposite sa.1)).bind fun b => if sa.2 ≠ b then some (sa.2, b) else none

/-- `pairs[0]` of the block at an index. -/
def throughPair (pi : Placed × Nat) : Option (Nat × Nat) :=
  (opposingPairs (byDir order placements pi.2 pi.1
    (((links catalogue placements).get? pi.2).getD ∅))).head?

/-- `forward`. -/
def forward : Dict Nat (Nat × Nat) :=
  (placements.zipIdx.filterMap fun pi =>
    (throughPair order catalogue placements pi).map fun pair => (pi.2, pair)).foldl
      (fun acc e => acc.upsert e.1 fun _ => e.2) Dict.empty

end Forward

/-! ## Walks -/

/-- The variables of a walk to one side. -/
structure Walk where
  cur : Nat
  prev : Nat
  seen : Finset Nat
  /-- The pieces of the walk, which go to the one end of `chain` or to the other. -/
  path : List Nat
deriving DecidableEq

/-- `nxt`. -/
def nextOf (pair : Nat × Nat) (prev : Nat) : Nat := if pair.1 = prev then pair.2 else pair.1

/-- One turn of the `while`. -/
def walkTurn (fwd : Dict Nat (Nat × Nat)) (s : Walk) : Walk ⊕ Walk :=
  match fwd.get? s.cur with
  | none => .inl s
  | some pair =>
    if s.cur ∈ s.seen then .inl s
    else .inr ⟨nextOf pair s.prev, s.cur, insert s.cur s.seen, s.path ++ [s.cur]⟩

theorem walkTurn_eq_inr {fwd : Dict Nat (Nat × Nat)} {s s' : Walk} (h : walkTurn fwd s = .inr s') :
    ∃ pair, fwd.get? s.cur = some pair ∧ s.cur ∉ s.seen ∧
      s' = ⟨nextOf pair s.prev, s.cur, insert s.cur s.seen, s.path ++ [s.cur]⟩ := by
  unfold walkTurn at h
  cases hget : fwd.get? s.cur with
  | none =>
    rw [hget] at h
    cases h
  | some pair =>
    simp only [hget] at h
    split at h
    · cases h
    · next hseen => exact ⟨pair, rfl, hseen, (Sum.inr.inj h).symm⟩

theorem walkTurn_eq_inl {fwd : Dict Nat (Nat × Nat)} {s r : Walk} (h : walkTurn fwd s = .inl r) :
    r = s := by
  unfold walkTurn at h
  split at h
  · exact (Sum.inl.inj h).symm
  · split at h
    · exact (Sum.inl.inj h).symm
    · cases h

/-- Every turn sees one more through-piece. -/
theorem walkTurn_variant (fwd : Dict Nat (Nat × Nat)) (s s' : Walk)
    (h : walkTurn fwd s = .inr s') :
    (fwd.keys.toFinset \ s'.seen).card < (fwd.keys.toFinset \ s.seen).card := by
  obtain ⟨pair, hget, hseen, rfl⟩ := walkTurn_eq_inr h
  have hkey : s.cur ∈ fwd.keys.toFinset :=
    List.mem_toFinset.mpr (Dict.mem_keys.mpr ⟨pair, Dict.mem_items_of_get? hget⟩)
  refine Finset.card_lt_card (Finset.ssubset_iff_of_subset ?_ |>.mpr ⟨s.cur, ?_, ?_⟩)
  · exact Finset.sdiff_subset_sdiff (Finset.Subset.refl _) (Finset.subset_insert _ _)
  · exact Finset.mem_sdiff.mpr ⟨hkey, hseen⟩
  · intro hmem
    exact (Finset.mem_sdiff.mp hmem).2 (Finset.mem_insert_self _ _)

/-- The walk from a through-piece to one side. -/
def walkFrom (fwd : Dict Nat (Nat × Nat)) (start first : Nat) (seen : Finset Nat) : Walk :=
  Loop.runTotal (walkTurn fwd) (fun s => (fwd.keys.toFinset \ s.seen).card)
    (walkTurn_variant fwd) ⟨first, start, seen, []⟩

/-- A chain, by the walks from its first piece: `left` was put before it and `right` behind it. -/
structure Chain where
  left : List Nat
  start : Nat
  right : List Nat
deriving DecidableEq

/-- `chain`. -/
def Chain.pieces (c : Chain) : List Nat := c.left.reverse ++ c.start :: c.right

/-- One turn of the loop over `forward`. -/
def chainTurn (fwd : Dict Nat (Nat × Nat)) (acc : Finset Nat × List Chain)
    (e : Nat × Nat × Nat) : Finset Nat × List Chain :=
  if e.1 ∈ acc.1 then acc
  else
    let left := walkFrom fwd e.1 e.2.1 (insert e.1 acc.1)
    let right := walkFrom fwd e.1 e.2.2 left.seen
    (right.seen, acc.2 ++ [⟨left.path, e.1, right.path⟩])

/-- The chains of the loop. -/
def chains (fwd : Dict Nat (Nat × Nat)) : List Chain :=
  (fwd.items.foldl (chainTurn fwd) (∅, [])).2

/-- `extract_runs(rows, catalogue, min_run, max_run)`. -/
def extractRuns (order : SetOrder) (catalogue : Dict String BlockDef) (minRun maxRun : Nat)
    (rows : List Placed) : List (List Placed) :=
  let placements := routePlacements rows
  if placements.length < minRun then []
  else
    (chains (forward order catalogue placements)).flatMap fun c =>
      (Windows.windows minRun maxRun c.pieces).map fun window =>
        window.filterMap fun k => placements[k]?

/-! ## Face contact -/

/-- A cell of the one block has a face in common with a cell of the other. -/
def FaceAdjacent (catalogue : Dict String BlockDef) (p q : Placed) : Prop :=
  ∃ c ∈ worldCells catalogue p, ∃ c' ∈ worldCells catalogue q,
    (c'.x - c.x).natAbs + (c'.y - c.y).natAbs + (c'.z - c.z).natAbs = 1

theorem FaceAdjacent.symm {catalogue : Dict String BlockDef} {p q : Placed}
    (h : FaceAdjacent catalogue p q) : FaceAdjacent catalogue q p := by
  obtain ⟨c, hc, c', hc', hdist⟩ := h
  exact ⟨c', hc', c, hc, by omega⟩

/-- `placements[k]`. -/
def placedAt (placements : List Placed) (k : Nat) : Placed :=
  (placements[k]?).getD ⟨"", 0, ⟨0, 0, 0⟩⟩

theorem placedAt_eq {placements : List Placed} {k : Nat} {p : Placed}
    (h : placements[k]? = some p) : placedAt placements k = p := by
  unfold placedAt
  rw [h, Option.getD_some]

section Forward

variable {order : SetOrder} {catalogue : Dict String BlockDef} {placements : List Placed}

theorem faceAdjacent_of_mem_contacts {i j : Nat} (h : (i, j) ∈ contacts catalogue placements) :
    FaceAdjacent catalogue (placedAt placements i) (placedAt placements j) := by
  unfold contacts at h
  obtain ⟨pi, hpi, h⟩ := List.mem_flatMap.mp h
  obtain ⟨cell, hcell, h⟩ := List.mem_flatMap.mp h
  obtain ⟨d, hd, h⟩ := List.mem_filterMap.mp h
  obtain ⟨j', hj', heq⟩ := Option.map_eq_some_iff.mp h
  obtain ⟨rfl, rfl⟩ := Prod.mk.inj heq
  obtain ⟨q, hq, hcovers⟩ := covers_of_get?_ownerOf hj'
  rw [placedAt_eq (List.mem_zipIdx_iff_getElem?.mp hpi), placedAt_eq hq]
  refine ⟨cell, hcell, cell + d, hcovers, ?_⟩
  have hdist := mem_contactDeltas.mp hd
  simp only [Cell.add_x, Cell.add_y, Cell.add_z]
  omega

/-- Linked blocks are in face contact. -/
theorem faceAdjacent_of_linked {i j : Nat} (h : Linked (links catalogue placements) i j) :
    FaceAdjacent catalogue (placedAt placements i) (placedAt placements j) := by
  have hempty : ¬ Linked Dict.empty i j := Finset.notMem_empty j
  unfold links at h
  rw [linked_foldl, or_iff_right hempty] at h
  rcases h.2 with h | h
  · exact faceAdjacent_of_mem_contacts h
  · exact (faceAdjacent_of_mem_contacts h).symm

/-- What `forward` stores for a piece: two neighbours on opposing sides. -/
structure Through (catalogue : Dict String BlockDef) (placements : List Placed) (i : Nat)
    (pair : Nat × Nat) : Prop where
  inRange : i < placements.length
  first : FaceAdjacent catalogue (placedAt placements i) (placedAt placements pair.1)
  second : FaceAdjacent catalogue (placedAt placements i) (placedAt placements pair.2)
  opposed : signStep (placedAt placements i) (placedAt placements pair.2) =
    opposite (signStep (placedAt placements i) (placedAt placements pair.1))

theorem through_of_forward {i : Nat} {pair : Nat × Nat}
    (h : (forward order catalogue placements).get? i = some pair) :
    Through catalogue placements i pair := by
  obtain ⟨e, he, rfl, rfl⟩ := Dict.exists_of_get?_foldl_overwrite h
  obtain ⟨pi, hpi, he⟩ := List.mem_filterMap.mp he
  obtain ⟨pair, hpair, rfl⟩ := Option.map_eq_some_iff.mp he
  obtain ⟨sa, hsa, hbind⟩ := List.mem_filterMap.mp (List.mem_of_mem_head? hpair)
  obtain ⟨b, hb, hsome⟩ := Option.bind_eq_some_iff.mp hbind
  obtain ⟨-, hsome⟩ := Option.ite_none_right_eq_some.mp hsome
  obtain rfl := Option.some.inj hsome
  have hmid := List.mem_zipIdx_iff_getElem?.mp hpi
  obtain ⟨hlinka, p, hp, hstepa⟩ := get?_byDir (Dict.get?_eq_some hsa)
  obtain ⟨hlinkb, q, hq, hstepb⟩ := get?_byDir hb
  refine ⟨(List.getElem?_eq_some_iff.mp hmid).1, faceAdjacent_of_linked hlinka,
    faceAdjacent_of_linked hlinkb, ?_⟩
  rw [placedAt_eq hmid, placedAt_eq hp, placedAt_eq hq, hstepa, hstepb]

end Forward

/-! ## What a walk goes through -/

/-- The path goes on from `cur`, which it comes to from `prev`. -/
def Follows (fwd : Dict Nat (Nat × Nat)) : Nat → Nat → List Nat → Prop
  | _, _, [] => True
  | prev, cur, k :: rest =>
    k = cur ∧ ∃ pair, fwd.get? k = some pair ∧ Follows fwd k (nextOf pair prev) rest

section Walks

variable {fwd : Dict Nat (Nat × Nat)}

/-- A walk goes on through pieces that nobody has seen. -/
theorem walkFrom_spec (fwd : Dict Nat (Nat × Nat)) (start first : Nat) (seen : Finset Nat) :
    Follows fwd start first (walkFrom fwd start first seen).path ∧
      (walkFrom fwd start first seen).path.Nodup ∧
      (∀ k ∈ (walkFrom fwd start first seen).path, k ∉ seen) ∧
      (walkFrom fwd start first seen).seen =
        seen ∪ (walkFrom fwd start first seen).path.toFinset := by
  have hrun : ∃ path, (walkFrom fwd start first seen).path = [] ++ path ∧
      Follows fwd start first path ∧ path.Nodup ∧ (∀ k ∈ path, k ∉ seen) ∧
      (walkFrom fwd start first seen).seen = seen ∪ path.toFinset := by
    refine Loop.yields_induction (R := fun (s r : Walk) => ∃ path, r.path = s.path ++ path ∧
        Follows fwd s.prev s.cur path ∧ path.Nodup ∧ (∀ k ∈ path, k ∉ s.seen) ∧
        r.seen = s.seen ∪ path.toFinset) ?_ ?_
      (Loop.yields_runTotal (walkTurn fwd) (fun s => (fwd.keys.toFinset \ s.seen).card)
        (walkTurn_variant fwd) ⟨first, start, seen, []⟩)
    · intro s r h
      rw [walkTurn_eq_inl h]
      exact ⟨[], (List.append_nil _).symm, trivial, List.nodup_nil, by simp, by simp⟩
    · rintro s s' r h ⟨path, hpath, hfollows, hnodup, hnew, hseen⟩
      obtain ⟨pair, hget, hcur, rfl⟩ := walkTurn_eq_inr h
      refine ⟨s.cur :: path, ?_, ⟨rfl, pair, hget, hfollows⟩, ?_, ?_, ?_⟩
      · rw [hpath, List.append_assoc, List.singleton_append]
      · exact List.nodup_cons.mpr
          ⟨fun hmem => hnew _ hmem (Finset.mem_insert_self _ _), hnodup⟩
      · intro k hk
        rcases List.mem_cons.mp hk with rfl | hk
        · exact hcur
        · exact fun hmem => hnew k hk (Finset.mem_insert_of_mem hmem)
      · rw [hseen, List.toFinset_cons, Finset.insert_union, Finset.union_insert]
  obtain ⟨path, hpath, h⟩ := hrun
  rw [hpath, List.nil_append]
  exact h

/-- Every piece of a path is a through-piece. -/
theorem exists_pair_of_follows {prev cur : Nat} {path : List Nat}
    (h : Follows fwd prev cur path) : ∀ k ∈ path, ∃ pair, fwd.get? k = some pair := by
  induction path generalizing prev cur with
  | nil => simp
  | cons c rest ih =>
    obtain ⟨-, pair, hget, hrest⟩ := h
    intro k hk
    rcases List.mem_cons.mp hk with rfl | hk
    · exact ⟨pair, hget⟩
    · exact ih hrest k hk

/-- Behind two pieces in a row comes the next one after the second. -/
theorem next_of_follows {prev cur : Nat} {path : List Nat} (h : Follows fwd prev cur path)
    {x k y : Nat} (hxky : [x, k, y] <:+: prev :: path) :
    ∃ pair, fwd.get? k = some pair ∧ y = nextOf pair x := by
  induction path generalizing prev cur with
  | nil =>
    have hlen := hxky.length_le
    simp at hlen
  | cons c rest ih =>
    obtain ⟨rfl, pair, hget, hrest⟩ := h
    rcases List.infix_cons_iff.mp hxky with hprefix | hxky
    · rw [List.cons_prefix_cons, List.cons_prefix_cons] at hprefix
      obtain ⟨rfl, rfl, t, rfl⟩ := hprefix
      exact ⟨pair, hget, hrest.1⟩
    · exact ih hrest hxky

/-- What a chain of the loop is. -/
structure Walked (fwd : Dict Nat (Nat × Nat)) (c : Chain) : Prop where
  walked : ∃ pair, fwd.get? c.start = some pair ∧ Follows fwd c.start pair.1 c.left ∧
    Follows fwd c.start pair.2 c.right
  nodup : c.pieces.Nodup

theorem walked_chainTurn {acc : Finset Nat × List Chain} {e : Nat × Nat × Nat}
    (he : fwd.get? e.1 = some e.2) (hacc : ∀ c ∈ acc.2, Walked fwd c) :
    ∀ c ∈ (chainTurn fwd acc e).2, Walked fwd c := by
  unfold chainTurn
  by_cases hseen : e.1 ∈ acc.1
  · rw [if_pos hseen]
    exact hacc
  · rw [if_neg hseen]
    intro c hc
    rcases List.mem_append.mp hc with hc | hc
    · exact hacc c hc
    · rw [List.mem_singleton.mp hc]
      have hleft := walkFrom_spec fwd e.1 e.2.1 (insert e.1 acc.1)
      have hright := walkFrom_spec fwd e.1 e.2.2
        (walkFrom fwd e.1 e.2.1 (insert e.1 acc.1)).seen
      refine ⟨⟨e.2, he, hleft.1, hright.1⟩, ?_⟩
      have hfresh : ∀ k ∈ (walkFrom fwd e.1 e.2.2
          (walkFrom fwd e.1 e.2.1 (insert e.1 acc.1)).seen).path,
          k ≠ e.1 ∧ k ∉ (walkFrom fwd e.1 e.2.1 (insert e.1 acc.1)).path := by
        intro k hk
        have hnot := hright.2.2.1 k hk
        rw [hleft.2.2.2, Finset.mem_union, Finset.mem_insert, List.mem_toFinset] at hnot
        exact ⟨fun h => hnot (Or.inl (Or.inl h)), fun h => hnot (Or.inr h)⟩
      refine List.nodup_append.mpr ⟨List.nodup_reverse.mpr hleft.2.1,
        List.nodup_cons.mpr ⟨fun h => (hfresh _ h).1 rfl, hright.2.1⟩, ?_⟩
      intro k hk k' hk' heq
      subst heq
      rw [List.mem_reverse] at hk
      rcases List.mem_cons.mp hk' with rfl | hk'
      · exact hleft.2.2.1 _ hk (Finset.mem_insert_self _ _)
      · exact (hfresh k hk').2 hk

theorem walked_chains {c : Chain} (hc : c ∈ chains fwd) : Walked fwd c := by
  have hfold : ∀ (items : List (Nat × Nat × Nat)) (acc : Finset Nat × List Chain),
      (∀ e ∈ items, fwd.get? e.1 = some e.2) → (∀ c ∈ acc.2, Walked fwd c) →
      ∀ c ∈ (items.foldl (chainTurn fwd) acc).2, Walked fwd c := by
    intro items
    induction items with
    | nil => exact fun acc _ hacc => hacc
    | cons e items ih =>
      intro acc hitems hacc
      exact ih _ (fun e' he' => hitems e' (List.mem_cons_of_mem _ he'))
        (walked_chainTurn (hitems e List.mem_cons_self) hacc)
  exact hfold fwd.items (∅, []) (fun e he => Dict.get?_eq_some he) (by simp) c hc

/-- The pieces of a chain are through-pieces. -/
theorem Walked.exists_pair {c : Chain} (h : Walked fwd c) :
    ∀ k ∈ c.pieces, ∃ pair, fwd.get? k = some pair := by
  obtain ⟨pair, hget, hleft, hright⟩ := h.walked
  intro k hk
  unfold Chain.pieces at hk
  rw [List.mem_append, List.mem_reverse, List.mem_cons] at hk
  rcases hk with hk | rfl | hk
  · exact exists_pair_of_follows hleft k hk
  · exact ⟨pair, hget⟩
  · exact exists_pair_of_follows hright k hk

end Walks

/-! ## Through a piece -/

section Chains

variable {order : SetOrder} {catalogue : Dict String BlockDef} {placements : List Placed}

/-- The neighbours `x` and `y` of the piece `k` lie on opposing sides of it. -/
def OpposedAt (placements : List Placed) (x k y : Nat) : Prop :=
  signStep (placedAt placements k) (placedAt placements y) =
    opposite (signStep (placedAt placements k) (placedAt placements x))

/-- A walk comes into the piece `k` from the first neighbour that is stored for it, or from the side
    opposite to that one. -/
def EntersStraight (fwd : Dict Nat (Nat × Nat)) (placements : List Placed) (x k : Nat) : Prop :=
  ∀ pair, fwd.get? k = some pair → pair.1 = x ∨ OpposedAt placements pair.1 k x

/-- Every walk of the chain goes straight into the pieces that it goes on from. -/
def Straight (fwd : Dict Nat (Nat × Nat)) (placements : List Placed) (c : Chain) : Prop :=
  ∀ x k y, [x, k, y] <:+: c.start :: c.left ∨ [x, k, y] <:+: c.start :: c.right →
    EntersStraight fwd placements x k

theorem OpposedAt.symm {x k y : Nat} (h : OpposedAt placements x k y) :
    OpposedAt placements y k x := by
  unfold OpposedAt at h ⊢
  rw [h, opposite_opposite]

/-- The way on lies opposite to the way in just where the walk comes straight in. -/
theorem opposedAt_nextOf_iff {x k : Nat} {pair : Nat × Nat}
    (hget : (forward order catalogue placements).get? k = some pair) :
    OpposedAt placements x k (nextOf pair x) ↔
      EntersStraight (forward order catalogue placements) placements x k := by
  have hthrough := through_of_forward hget
  unfold EntersStraight
  rw [hget]
  simp only [Option.some.injEq, forall_eq']
  unfold nextOf
  by_cases hx : pair.1 = x
  · rw [if_pos hx, ← hx]
    exact iff_of_true hthrough.opposed (Or.inl rfl)
  · rw [if_neg hx, or_iff_right hx]
    exact ⟨OpposedAt.symm, OpposedAt.symm⟩

/-- Along a chain neighbours lie on opposing sides just where its walks come straight in. -/
theorem opposed_chain_iff {c : Chain}
    (hc : Walked (forward order catalogue placements) c) :
    (∀ x k y, [x, k, y] <:+: c.pieces → OpposedAt placements x k y) ↔
      Straight (forward order catalogue placements) placements c := by
  obtain ⟨pair, hget, hleft, hright⟩ := hc.walked
  have hstart : ∀ x y, c.left.head? = some x → c.right.head? = some y →
      OpposedAt placements x c.start y := by
    intro x y hx hy
    obtain ⟨l, hl⟩ := List.head?_eq_some_iff.mp hx
    obtain ⟨r, hr⟩ := List.head?_eq_some_iff.mp hy
    rw [hl] at hleft
    rw [hr] at hright
    rw [hleft.1, hright.1]
    exact (through_of_forward hget).opposed
  unfold Chain.pieces Straight
  simp only [Windows.infix_reverse_append]
  constructor
  · rintro hall x k y (hxky | hxky)
    · obtain ⟨pair', hget', hy⟩ := next_of_follows hleft hxky
      have hopposed := (hall y k x (Or.inl hxky)).symm
      rw [hy] at hopposed
      exact (opposedAt_nextOf_iff hget').mp hopposed
    · obtain ⟨pair', hget', hy⟩ := next_of_follows hright hxky
      have hopposed := hall x k y (Or.inr (Or.inl hxky))
      rw [hy] at hopposed
      exact (opposedAt_nextOf_iff hget').mp hopposed
  · rintro hstraight x k y (hykx | hxky | ⟨rfl, hx, hy⟩)
    · obtain ⟨pair', hget', hx⟩ := next_of_follows hleft hykx
      have hopposed := (opposedAt_nextOf_iff hget').mpr (hstraight y k x (Or.inl hykx))
      rw [← hx] at hopposed
      exact hopposed.symm
    · obtain ⟨pair', hget', hy⟩ := next_of_follows hright hxky
      have hopposed := (opposedAt_nextOf_iff hget').mpr (hstraight x k y (Or.inr hxky))
      rw [← hy] at hopposed
      exact hopposed
    · exact hstart x y hx hy

/-- Pieces in a row are in face contact. -/
theorem adjacent_of_follows {prev cur : Nat} {path : List Nat}
    (h : Follows (forward order catalogue placements) prev cur path)
    (hcur : FaceAdjacent catalogue (placedAt placements prev) (placedAt placements cur)) :
    (prev :: path).IsChain fun i j =>
      FaceAdjacent catalogue (placedAt placements i) (placedAt placements j) := by
  induction path generalizing prev cur with
  | nil => exact List.isChain_singleton _
  | cons k rest ih =>
    obtain ⟨rfl, pair, hget, hrest⟩ := h
    have hthrough := through_of_forward hget
    refine List.isChain_cons_cons.mpr ⟨hcur, ih hrest ?_⟩
    unfold nextOf
    split
    · exact hthrough.second
    · exact hthrough.first

theorem adjacent_chain {c : Chain} (hc : Walked (forward order catalogue placements) c) :
    c.pieces.IsChain fun i j =>
      FaceAdjacent catalogue (placedAt placements i) (placedAt placements j) := by
  obtain ⟨pair, hget, hleft, hright⟩ := hc.walked
  have hthrough := through_of_forward hget
  exact Windows.isChain_reverse_append (fun _ _ => FaceAdjacent.symm)
    (adjacent_of_follows hleft hthrough.first) (adjacent_of_follows hright hthrough.second)

theorem pieces_lt {c : Chain} (hc : Walked (forward order catalogue placements) c) :
    ∀ k ∈ c.pieces, k < placements.length := by
  intro k hk
  obtain ⟨pair, hget⟩ := hc.exists_pair k hk
  exact (through_of_forward hget).inRange

/-- A chain has no more pieces than there are placements. -/
theorem length_pieces_le {c : Chain} (hc : Walked (forward order catalogue placements) c) :
    c.pieces.length ≤ placements.length := by
  rw [← List.toFinset_card_of_nodup hc.nodup, ← Finset.card_range placements.length]
  refine Finset.card_le_card fun k hk => ?_
  exact Finset.mem_range.mpr (pieces_lt hc k (List.mem_toFinset.mp hk))

/-- The placements at indices in range. -/
theorem filterMap_placedAt {ks : List Nat} (h : ∀ k ∈ ks, k < placements.length) :
    (ks.filterMap fun k => placements[k]?) = ks.map (placedAt placements) ∧
      (ks.map (placedAt placements)).map some = ks.map fun k => placements[k]? := by
  have hat : ∀ k ∈ ks, placements[k]? = some (placedAt placements k) := by
    intro k hk
    have hget := List.getElem?_eq_getElem (h k hk)
    rw [hget, placedAt_eq hget]
  constructor
  · rw [List.filterMap_congr hat]
    exact congrFun List.filterMap_eq_map ks
  · rw [List.map_map]
    exact List.map_congr_left fun k hk => (hat k hk).symm

end Chains

/-! ## Mined runs -/

/-- A run is a chain of through-pieces: distinct placements, as many as allowed, one in face contact
    with the next, and at an inner one the signs of the two steps are negatives of each other. -/
structure ThroughRun (catalogue : Dict String BlockDef) (minRun maxRun : Nat)
    (placements run : List Placed) : Prop where
  distinct : ∃ ks : List Nat, ks.Nodup ∧ run.map some = ks.map fun k => placements[k]?
  minLength : minRun ≤ run.length
  maxLength : run.length ≤ maxRun
  adjacent : run.IsChain (FaceAdjacent catalogue)
  opposed : ∀ before p after, [before, p, after] <:+: run →
    signStep p after = opposite (signStep p before)

/-- The mined runs are the windows of the chains; with fewer placements than `min_run` there are no
    windows either. -/
theorem mem_extractRuns {order : SetOrder} {catalogue : Dict String BlockDef} {minRun maxRun : Nat}
    {rows run : List Placed} :
    run ∈ extractRuns order catalogue minRun maxRun rows ↔
      ∃ c ∈ chains (forward order catalogue (routePlacements rows)),
        ∃ ks ∈ Windows.windows minRun maxRun c.pieces,
          run = ks.map (placedAt (routePlacements rows)) := by
  unfold extractRuns
  generalize routePlacements rows = placements
  dsimp only
  have hrun : ∀ c ∈ chains (forward order catalogue placements),
      ∀ ks ∈ Windows.windows minRun maxRun c.pieces,
        (ks.filterMap fun k => placements[k]?) = ks.map (placedAt placements) := by
    intro c hc ks hks
    exact (filterMap_placedAt fun k hk => pieces_lt (walked_chains hc) k
      ((Windows.infix_of_mem_windows hks).subset hk)).1
  by_cases hfew : placements.length < minRun
  · rw [if_pos hfew]
    constructor
    · intro h
      cases h
    · rintro ⟨c, hc, ks, hks, -⟩
      have hlen := length_pieces_le (walked_chains hc)
      have hks' := (Windows.length_of_mem_windows hks).1
      have hsub := (Windows.infix_of_mem_windows hks).length_le
      omega
  · rw [if_neg hfew, List.mem_flatMap]
    constructor
    · rintro ⟨c, hc, h⟩
      obtain ⟨ks, hks, rfl⟩ := List.mem_map.mp h
      exact ⟨c, hc, ks, hks, hrun c hc ks hks⟩
    · rintro ⟨c, hc, ks, hks, rfl⟩
      exact ⟨c, hc, List.mem_map.mpr ⟨ks, hks, hrun c hc ks hks⟩⟩

/-- The mined runs are chains of through-pieces if and only if, where a run can have an inner piece
    at all, the walks of every long enough chain come straight into the pieces they go on from. -/
theorem through_runs_iff (order : SetOrder) (catalogue : Dict String BlockDef)
    (minRun maxRun : Nat) (rows : List Placed) :
    (∀ run ∈ extractRuns order catalogue minRun maxRun rows,
        ThroughRun catalogue minRun maxRun (routePlacements rows) run) ↔
      (minRun ≤ maxRun → 3 ≤ maxRun →
        ∀ c ∈ chains (forward order catalogue (routePlacements rows)),
          minRun ≤ c.pieces.length →
          Straight (forward order catalogue (routePlacements rows)) (routePlacements rows) c) := by
  constructor
  · intro hall hminmax hthree c hc hlen
    refine (opposed_chain_iff (walked_chains hc)).mp fun x k y hxky => ?_
    obtain ⟨ks, hks, hwindow⟩ := Windows.exists_window hxky hlen hminmax hthree
    have hrun := (hall _ (mem_extractRuns.mpr ⟨c, hc, ks, hks, rfl⟩)).opposed
    exact hrun _ _ _ (hwindow.map (placedAt _))
  · intro hstraight run hrun
    obtain ⟨c, hc, ks, hks, rfl⟩ := mem_extractRuns.mp hrun
    have hwalked := walked_chains hc
    have hwindow := Windows.infix_of_mem_windows hks
    obtain ⟨hmin, hmax⟩ := Windows.length_of_mem_windows hks
    refine ⟨⟨ks, hwalked.nodup.sublist hwindow.sublist, (filterMap_placedAt fun k hk =>
      pieces_lt hwalked k (hwindow.subset hk)).2⟩, ?_, ?_, ?_, ?_⟩
    · rw [List.length_map]
      exact hmin
    · rw [List.length_map]
      exact hmax
    · rw [List.isChain_map]
      exact List.IsChain.infix (adjacent_chain hwalked) hwindow
    · intro before p after h
      obtain ⟨x, k, y, hxky, rfl, rfl, rfl⟩ := Windows.three_infix_map h
      have hthree := hxky.length_le
      simp only [List.length_cons, List.length_nil] at hthree
      have hlen := hwindow.length_le
      exact (opposed_chain_iff hwalked).mpr (hstraight (by omega) (by omega) c hc (by omega))
        x k y (hxky.trans hwindow)

/-- A road that ends at the side of another: from it the walk turns into the other road. -/
def junctionRows : List Placed :=
  [⟨"RoadTechStraight", 1, ⟨23, 9, 24⟩⟩, ⟨"RoadTechStraight", 0, ⟨24, 9, 24⟩⟩,
    ⟨"RoadTechStraight", 0, ⟨24, 9, 25⟩⟩, ⟨"RoadTechStraight", 0, ⟨24, 9, 26⟩⟩,
    ⟨"RoadTechStraight", 0, ⟨24, 9, 27⟩⟩, ⟨"RoadTechStraight", 1, ⟨22, 9, 24⟩⟩,
    ⟨"RoadTechStraight", 0, ⟨24, 9, 23⟩⟩]

/-- The one run of the two roads goes round the corner. -/
theorem junction_run_turns :
    extractRuns ascending Dict.empty 4 8 junctionRows =
        [[⟨"RoadTechStraight", 0, ⟨24, 9, 26⟩⟩, ⟨"RoadTechStraight", 0, ⟨24, 9, 25⟩⟩,
          ⟨"RoadTechStraight", 0, ⟨24, 9, 24⟩⟩, ⟨"RoadTechStraight", 1, ⟨23, 9, 24⟩⟩]] ∧
      ¬ ∀ run ∈ extractRuns ascending Dict.empty 4 8 junctionRows,
        ThroughRun Dict.empty 4 8 (routePlacements junctionRows) run := by
  have hrun : extractRuns ascending Dict.empty 4 8 junctionRows =
      [[⟨"RoadTechStraight", 0, ⟨24, 9, 26⟩⟩, ⟨"RoadTechStraight", 0, ⟨24, 9, 25⟩⟩,
        ⟨"RoadTechStraight", 0, ⟨24, 9, 24⟩⟩, ⟨"RoadTechStraight", 1, ⟨23, 9, 24⟩⟩]] := by
    decide +kernel
  refine ⟨hrun, fun hall => ?_⟩
  rw [hrun] at hall
  have hcorner := (hall _ List.mem_cons_self).opposed _ _ _
    ⟨[⟨"RoadTechStraight", 0, ⟨24, 9, 26⟩⟩], [], rfl⟩
  exact absurd hcorner (by decide)

end TraxMania.RouteMacros
