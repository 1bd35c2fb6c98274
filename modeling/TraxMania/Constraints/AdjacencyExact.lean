import TraxMania.Constraints.Adjacency
import TraxMania.Lib.Firsts

/-
  What an extraction says: for every unordered pair of keys that lie in two cells with a common face
  one observation, in the order of the normalized keys, and no others. A cell has the block of the
  first placement listed for it. Layouts that are moved rigidly say the same.
-/

namespace TraxMania.Constraints

open Lib Grid Storage

variable {φ : Type}

/-! ## The layout -/

/-- The cell of a placement that the extraction looks at. -/
def cellOf (p : BlockRow φ) : Option Cell :=
  match p.isFree, p.x, p.y, p.z with
  | false, some x, some y, some z => some ⟨x, y, z⟩
  | _, _, _, _ => none

/-- The first placement listed for a cell. -/
def firstAt (placements : List (BlockRow φ)) (c : Cell) : Option (BlockRow φ) :=
  placements.find? fun p => decide (cellOf p = some c)

/-- The block of a cell. -/
def KeyAt (placements : List (BlockRow φ)) (c : Cell) (key : BlockKey) : Prop :=
  ∃ p, firstAt placements c = some p ∧ blockKeyFromPlacement p = .ok key

/-- Two cells have a common face. -/
def FaceAdjacent (c c' : Cell) : Prop :=
  (c'.x - c.x).natAbs + (c'.y - c.y).natAbs + (c'.z - c.z).natAbs = 1

instance (c c' : Cell) : Decidable (FaceAdjacent c c') := inferInstanceAs (Decidable (_ = _))

/-- The keys occur in two cells with a common face. -/
def Adjoin (placements : List (BlockRow φ)) (a b : BlockKey) : Prop :=
  ∃ c c', FaceAdjacent c c' ∧ KeyAt placements c a ∧ KeyAt placements c' b

/-- The observation is of the unordered pair. -/
def AdjacencyObservation.Joins (o : AdjacencyObservation) (a b : BlockKey) : Prop :=
  (o.a = a ∧ o.b = b) ∨ (o.a = b ∧ o.b = a)

instance (o : AdjacencyObservation) (a b : BlockKey) : Decidable (o.Joins a b) :=
  inferInstanceAs (Decidable (_ ∨ _))

def AdjacencyObservation.marks (o : AdjacencyObservation) : Marks :=
  ⟨o.snapshotId, o.isBenchmarkStrong, o.isBrokenFixture⟩

theorem faceAdjacent_comm {c c' : Cell} : FaceAdjacent c c' ↔ FaceAdjacent c' c := by
  have hswap : ∀ m n : Int, (m - n).natAbs = (n - m).natAbs := by
    intro m n
    rw [← Int.natAbs_neg, Int.neg_sub]
  unfold FaceAdjacent
  rw [hswap c'.x, hswap c'.y, hswap c'.z]

theorem adjoin_comm {placements : List (BlockRow φ)} {a b : BlockKey} :
    Adjoin placements a b ↔ Adjoin placements b a := by
  constructor
  · rintro ⟨c, c', hadj, ha, hb⟩
    exact ⟨c', c, faceAdjacent_comm.mp hadj, hb, ha⟩
  · rintro ⟨c, c', hadj, hb, ha⟩
    exact ⟨c', c, faceAdjacent_comm.mp hadj, ha, hb⟩

/-- The six offsets are the steps of length one. -/
theorem mem_axisNeighborOffsets {v : Cell} :
    v ∈ axisNeighborOffsets ↔ v.x.natAbs + v.y.natAbs + v.z.natAbs = 1 := by
  rw [Cell.natAbs_eq_one_iff]
  simp only [axisNeighborOffsets, List.mem_cons, List.not_mem_nil, or_false]

/-- The six offsets are the cells with a common face. -/
theorem faceAdjacent_iff {c c' : Cell} :
    FaceAdjacent c c' ↔ ∃ offset ∈ axisNeighborOffsets, c + offset = c' := by
  constructor
  · intro h
    exact ⟨c' - c, mem_axisNeighborOffsets.mpr h, Cell.add_sub_of c c'⟩
  · rintro ⟨offset, hmem, rfl⟩
    unfold FaceAdjacent
    rw [← Cell.sub_x, ← Cell.sub_y, ← Cell.sub_z, Cell.add_sub_self]
    exact mem_axisNeighborOffsets.mp hmem

/-! ## Keys by their text -/

theorem append_sep_inj {α : Type*} {sep : α} {a a' b b' : List α} (h : sep ∉ a) (h' : sep ∉ a')
    (he : a ++ sep :: b = a' ++ sep :: b') : a = a' ∧ b = b' := by
  induction a generalizing a' with
  | nil =>
    cases a' with
    | nil => exact ⟨rfl, (List.cons.inj he).2⟩
    | cons x a' =>
      have hx : sep = x := (List.cons.inj he).1
      exact absurd (hx ▸ List.mem_cons_self) h'
  | cons y a ih =>
    cases a' with
    | nil =>
      have hy : y = sep := (List.cons.inj he).1
      exact absurd (hy ▸ List.mem_cons_self) h
    | cons x a' =>
      obtain ⟨hxy, hrest⟩ := List.cons.inj he
      obtain ⟨ha, hb⟩ := ih (fun hmem => h (List.mem_cons_of_mem _ hmem))
        (fun hmem => h' (List.mem_cons_of_mem _ hmem)) hrest
      exact ⟨by rw [hxy, ha], hb⟩

theorem normalizedKey_toList (k : BlockKey) :
    k.normalizedKey.toList =
      k.family.toList ++ '|' :: (k.type.toList ++ '|' :: k.variant.toList) := by
  have hsep : ("|" : String).toList = ['|'] := rfl
  unfold BlockKey.normalizedKey
  rw [String.toList_append, String.toList_append, String.toList_append, String.toList_append, hsep,
    List.append_assoc, List.append_assoc, List.append_assoc]
  rfl

/-- The normalized key is the block's identity. -/
theorem normalizedKey_injective : Function.Injective BlockKey.normalizedKey := by
  intro k k' h
  have hlist := congrArg String.toList h
  rw [normalizedKey_toList, normalizedKey_toList] at hlist
  obtain ⟨hfamily, hrest⟩ := append_sep_inj k.unseparated.1 k'.unseparated.1 hlist
  obtain ⟨htype, hvariant⟩ := append_sep_inj k.unseparated.2.1 k'.unseparated.2.1 hrest
  cases k
  cases k'
  rw [BlockKey.mk.injEq]
  exact ⟨String.toList_injective hfamily, String.toList_injective htype,
    String.toList_injective hvariant⟩

/-- The pair of an observation, as texts, is the pair of keys that it joins. -/
theorem pair_observation_iff {m : Marks} {a b : BlockKey} {o : AdjacencyObservation} :
    o.pair = (observation m a b).pair ↔ o.Joins a b := by
  have hle := o.ordered
  unfold observation AdjacencyObservation.pair AdjacencyObservation.Joins orderPair
  rw [Prod.mk.injEq]
  split
  · next hab =>
    rw [normalizedKey_injective.eq_iff, normalizedKey_injective.eq_iff]
    constructor
    · exact Or.inl
    · rintro (h | ⟨ha, hb⟩)
      · exact h
      · rw [ha, hb] at hle
        have heq : a = b := normalizedKey_injective (le_antisymm hab hle)
        exact ⟨ha.trans heq.symm, hb.trans heq⟩
  · next hab =>
    rw [normalizedKey_injective.eq_iff, normalizedKey_injective.eq_iff]
    constructor
    · exact Or.inr
    · rintro (⟨ha, hb⟩ | h)
      · rw [ha, hb] at hle
        exact absurd hle hab
      · exact h

/-- What is observed where `a'` meets `b'`. -/
theorem joins_observation {m : Marks} {a b a' b' : BlockKey} :
    (observation m a' b').Joins a b ↔ (a' = a ∧ b' = b) ∨ (a' = b ∧ b' = a) := by
  unfold observation AdjacencyObservation.Joins orderPair
  split
  · rfl
  · dsimp only
    tauto

/-! ## The first loop -/

theorem cellKeys_cons (p : BlockRow φ) (placements : List (BlockRow φ))
    (byCell : Dict Cell BlockKey) :
    cellKeys (p :: placements) byCell =
      match cellOf p with
      | some c =>
        match blockKeyFromPlacement p with
        | .ok key => cellKeys placements (byCell.setdefault c key)
        | .error e => .error e
      | none => cellKeys placements byCell := by
  rw [cellKeys]
  unfold cellOf
  cases p.isFree with
  | true => rfl
  | false =>
    cases p.x with
    | none => rfl
    | some x =>
      cases p.y with
      | none => rfl
      | some y =>
        cases p.z with
        | none => rfl
        | some z => rfl

theorem firstAt_cons (p : BlockRow φ) (placements : List (BlockRow φ)) (c : Cell) :
    firstAt (p :: placements) c = if cellOf p = some c then some p else firstAt placements c := by
  unfold firstAt
  rw [List.find?_cons]
  by_cases h : cellOf p = some c
  · rw [if_pos h, decide_eq_true h]
  · rw [if_neg h, decide_eq_false h]

theorem firstAt_eq_some {placements : List (BlockRow φ)} {c : Cell} {p : BlockRow φ}
    (h : firstAt placements c = some p) : p ∈ placements ∧ cellOf p = some c := by
  unfold firstAt at h
  exact ⟨List.mem_of_find?_eq_some h, by simpa using List.find?_some h⟩

/-- `by_cell` has the block of every cell. -/
theorem get?_cellKeys {placements : List (BlockRow φ)} {byCell byCell' : Dict Cell BlockKey}
    (h : cellKeys placements byCell = .ok byCell') (c : Cell) (key : BlockKey) :
    byCell'.get? c = some key ↔
      byCell.get? c = some key ∨ byCell.get? c = none ∧ KeyAt placements c key := by
  unfold KeyAt
  induction placements generalizing byCell with
  | nil =>
    rw [← Except.ok.inj h]
    constructor
    · exact Or.inl
    · rintro (h | ⟨-, p, hp, -⟩)
      · exact h
      · cases hp
  | cons p placements ih =>
    rw [cellKeys_cons] at h
    rw [firstAt_cons]
    cases hcell : cellOf p with
    | none =>
      rw [hcell] at h
      rw [if_neg (Option.some_ne_none c).symm]
      exact ih h
    | some c' =>
      rw [hcell] at h
      dsimp only at h
      cases hkey : blockKeyFromPlacement p with
      | error e =>
        rw [hkey] at h
        cases h
      | ok key' =>
        rw [hkey] at h
        rw [ih h]
        unfold Dict.setdefault
        rw [Dict.get?_upsert]
        by_cases hc : c = c'
        · subst hc
          rw [if_pos rfl, if_pos rfl]
          cases hold : byCell.get? c with
          | none => simp [hkey]
          | some old => simp
        · have hne : ¬ some c' = some c := fun e => hc (Option.some.inj e).symm
          rw [if_neg hc, if_neg hne]

/-! ## The second loop -/

theorem mem_neighborPairs {byCell : Dict Cell BlockKey} {a b : BlockKey} :
    (a, b) ∈ neighborPairs byCell ↔
      ∃ c c', FaceAdjacent c c' ∧ byCell.get? c = some a ∧ byCell.get? c' = some b := by
  unfold neighborPairs
  simp only [List.mem_flatMap, List.mem_filterMap, Option.map_eq_some_iff, Prod.mk.injEq]
  constructor
  · rintro ⟨⟨c, key⟩, hitem, offset, hoffset, neighbor, hget, rfl, rfl⟩
    exact ⟨c, c + offset, faceAdjacent_iff.mpr ⟨offset, hoffset, rfl⟩, Dict.get?_eq_some hitem,
      hget⟩
  · rintro ⟨c, c', hadj, ha, hb⟩
    obtain ⟨offset, hoffset, rfl⟩ := faceAdjacent_iff.mp hadj
    exact ⟨(c, a), Dict.mem_items_of_get? ha, offset, hoffset, b, hb, rfl, rfl⟩

/-- Observations are dropped only for an earlier one of their pair. -/
theorem mem_pairs_foldl (os out : List AdjacencyObservation) (pair : String × String) :
    pair ∈ (os.foldl addObservation out).map AdjacencyObservation.pair ↔
      pair ∈ out.map AdjacencyObservation.pair ∨ pair ∈ os.map AdjacencyObservation.pair := by
  induction os generalizing out with
  | nil => simp
  | cons o os ih =>
    rw [List.foldl_cons, ih, List.map_cons, List.mem_cons]
    unfold addObservation
    split
    · next hseen =>
      constructor
      · exact fun h => h.imp_right Or.inr
      · rintro (h | rfl | h)
        · exact .inl h
        · exact .inl hseen
        · exact .inr h
    · rw [List.map_append, List.mem_append, List.map_singleton, List.mem_singleton]
      tauto

theorem mem_foldl_addObservation {os out : List AdjacencyObservation} {o : AdjacencyObservation}
    (h : o ∈ os.foldl addObservation out) : o ∈ out ∨ o ∈ os := by
  induction os generalizing out with
  | nil => exact .inl h
  | cons o' os ih =>
    rcases ih h with h | h
    · unfold addObservation at h
      split at h
      · exact .inl h
      · rcases List.mem_append.mp h with h | h
        · exact .inl h
        · rw [List.mem_singleton.mp h]
          exact .inr List.mem_cons_self
    · exact .inr (List.mem_cons_of_mem _ h)

section Extraction

variable {placements : List (BlockRow φ)} {m : Marks} {observations : List AdjacencyObservation}

/-- The observations before the second loop drops any. -/
theorem extractAdjacencies_eq_ok (h : extractAdjacencies placements m = .ok observations) :
    ∃ pairs : List (BlockKey × BlockKey), (∀ a b, (a, b) ∈ pairs ↔ Adjoin placements a b) ∧
      observations = (pairs.map fun (a, b) => observation m a b).foldl addObservation [] := by
  unfold extractAdjacencies at h
  split at h
  · cases h
  · next byCell hcells =>
    have hget : ∀ c key, byCell.get? c = some key ↔ KeyAt placements c key := by
      intro c key
      rw [get?_cellKeys hcells]
      exact ⟨fun h => h.elim (fun h => nomatch h) And.right, fun h => .inr ⟨rfl, h⟩⟩
    refine ⟨neighborPairs byCell, fun a b => ?_, (Except.ok.inj h).symm⟩
    rw [mem_neighborPairs]
    simp only [hget]
    rfl

/-- The pairs of keys that are observed. -/
theorem exists_joins_iff (h : extractAdjacencies placements m = .ok observations) (a b : BlockKey) :
    (∃ o ∈ observations, o.Joins a b) ↔ Adjoin placements a b := by
  obtain ⟨pairs, hpairs, rfl⟩ := extractAdjacencies_eq_ok h
  have hmem := mem_pairs_foldl (pairs.map fun (a, b) => observation m a b) []
    (observation m a b).pair
  simp only [List.map_nil, List.not_mem_nil, false_or, List.mem_map] at hmem
  constructor
  · rintro ⟨o, ho, hjoins⟩
    obtain ⟨o', ⟨⟨a', b'⟩, hpair, rfl⟩, heq⟩ := hmem.mp ⟨o, ho, pair_observation_iff.mpr hjoins⟩
    have hadj := (hpairs a' b').mp hpair
    rcases joins_observation.mp (pair_observation_iff.mp heq) with ⟨rfl, rfl⟩ | ⟨rfl, rfl⟩
    · exact hadj
    · exact adjoin_comm.mp hadj
  · intro hadj
    obtain ⟨o, ho, heq⟩ := hmem.mpr ⟨_, ⟨(a, b), (hpairs a b).mpr hadj, rfl⟩, rfl⟩
    exact ⟨o, ho, pair_observation_iff.mp heq⟩

/-- One observation of every pair of keys that adjoin. -/
theorem filter_joins (h : extractAdjacencies placements m = .ok observations) {a b : BlockKey}
    (hadj : Adjoin placements a b) :
    ∃ o, (observations.filter fun o => decide (o.Joins a b)) = [o] := by
  obtain ⟨o, ho, hjoins⟩ := (exists_joins_iff h a b).mpr hadj
  have hpairs := extractAdjacencies_nodup h
  refine ⟨o, filter_key_eq (List.pairwise_map.mp hpairs) ho _ fun o' _ => ?_⟩
  rw [decide_eq_true_eq, (pair_observation_iff (m := m)).mpr hjoins]
  exact (pair_observation_iff (m := m)).symm

/-- The observations have the marks of the map. -/
theorem marks_eq (h : extractAdjacencies placements m = .ok observations) :
    ∀ o ∈ observations, o.marks = m := by
  obtain ⟨pairs, -, rfl⟩ := extractAdjacencies_eq_ok h
  intro o ho
  rcases mem_foldl_addObservation ho with ho | ho
  · exact absurd ho List.not_mem_nil
  · obtain ⟨pair, -, rfl⟩ := List.mem_map.mp ho
    rfl

end Extraction

/-! ## Moved layouts -/

/-- A motion of the grid: cells with a common face go to cells with a common face, and no others. -/
structure Motion where
  cell : Cell → Cell
  injective : Function.Injective cell
  adjacent : ∀ c c', FaceAdjacent (cell c) (cell c') ↔ FaceAdjacent c c'

namespace Motion

/-- A shift by `v`. -/
def shift (v : Cell) : Motion where
  cell := fun c => c + v
  injective := by
    intro c c' h
    have hx := congrArg Cell.x h
    have hy := congrArg Cell.y h
    have hz := congrArg Cell.z h
    simp only [Cell.add_x, Cell.add_y, Cell.add_z] at hx hy hz
    exact Cell.ext (by omega) (by omega) (by omega)
  adjacent := by
    intro c c'
    unfold FaceAdjacent
    simp only [Cell.add_x, Cell.add_y, Cell.add_z]
    omega

/-- A coordinate, or its mirror image. -/
def mirrored (asked : Bool) (n : Int) : Int := if asked then -n else n

theorem mirrored_injective {asked : Bool} {n n' : Int} (h : mirrored asked n = mirrored asked n') :
    n = n' := by
  unfold mirrored at h
  split at h
  · exact Int.neg_inj.mp h
  · exact h

theorem natAbs_mirrored (asked : Bool) (n n' : Int) :
    (mirrored asked n' - mirrored asked n).natAbs = (n' - n).natAbs := by
  unfold mirrored
  split
  · omega
  · rfl

/-- The mirror images in the planes `x = 0`, `y = 0` and `z = 0`, as they are asked for. -/
def mirror (inX inY inZ : Bool) : Motion where
  cell := fun c => ⟨mirrored inX c.x, mirrored inY c.y, mirrored inZ c.z⟩
  injective := by
    intro c c' h
    obtain ⟨hx, hy, hz⟩ := Cell.mk.inj h
    exact Cell.ext (mirrored_injective hx) (mirrored_injective hy) (mirrored_injective hz)
  adjacent := by
    intro c c'
    unfold FaceAdjacent
    rw [natAbs_mirrored, natAbs_mirrored, natAbs_mirrored]

variable (f : Motion)

/-- The placement, moved. -/
def row (p : BlockRow φ) : BlockRow φ :=
  match cellOf p with
  | none => p
  | some c => { p with x := some (f.cell c).x, y := some (f.cell c).y, z := some (f.cell c).z }

theorem cellOf_eq_some {p : BlockRow φ} {c : Cell} (h : cellOf p = some c) : p.isFree = false := by
  unfold cellOf at h
  split at h
  · assumption
  · cases h

theorem cellOf_row (p : BlockRow φ) : cellOf (f.row p) = (cellOf p).map f.cell := by
  unfold row
  cases h : cellOf p with
  | none =>
    dsimp only
    rw [h]
    rfl
  | some c =>
    unfold cellOf
    dsimp only
    rw [cellOf_eq_some h]
    rfl

theorem blockKey_row (p : BlockRow φ) :
    blockKeyFromPlacement (f.row p) = blockKeyFromPlacement p := by
  unfold row
  cases cellOf p with
  | none => rfl
  | some c => rfl

theorem accepted_row {p : BlockRow φ} (h : Accepted p) : Accepted (f.row p) := by
  unfold row
  cases cellOf p with
  | none => exact h
  | some c => exact h

variable (placements : List (BlockRow φ))

theorem firstAt_rows (c : Cell) :
    firstAt (placements.map f.row) (f.cell c) = (firstAt placements c).map f.row := by
  unfold firstAt
  rw [List.find?_map]
  congr 2
  funext p
  refine decide_eq_decide.mpr ?_
  rw [cellOf_row]
  constructor
  · intro h
    obtain ⟨c', hc', he⟩ := Option.map_eq_some_iff.mp h
    rw [hc', f.injective he]
  · intro h
    rw [h]
    rfl

theorem keyAt_rows {c : Cell} {key : BlockKey} :
    KeyAt (placements.map f.row) c key ↔ ∃ c', f.cell c' = c ∧ KeyAt placements c' key := by
  constructor
  · rintro ⟨p', hp', hkey⟩
    obtain ⟨hmem, hcell⟩ := firstAt_eq_some hp'
    obtain ⟨p, -, rfl⟩ := List.mem_map.mp hmem
    rw [cellOf_row] at hcell
    obtain ⟨c', -, rfl⟩ := Option.map_eq_some_iff.mp hcell
    rw [firstAt_rows] at hp'
    obtain ⟨q, hq, heq⟩ := Option.map_eq_some_iff.mp hp'
    rw [← heq, blockKey_row] at hkey
    exact ⟨c', rfl, q, hq, hkey⟩
  · rintro ⟨c', rfl, p, hp, hkey⟩
    refine ⟨f.row p, ?_, (f.blockKey_row p).trans hkey⟩
    rw [firstAt_rows, hp]
    rfl

/-- A moved layout has the same neighbours. -/
theorem adjoin_rows {a b : BlockKey} :
    Adjoin (placements.map f.row) a b ↔ Adjoin placements a b := by
  constructor
  · rintro ⟨d, d', hadj, ha, hb⟩
    obtain ⟨c, rfl, hac⟩ := (f.keyAt_rows placements).mp ha
    obtain ⟨c', rfl, hbc⟩ := (f.keyAt_rows placements).mp hb
    exact ⟨c, c', (f.adjacent c c').mp hadj, hac, hbc⟩
  · rintro ⟨c, c', hadj, ha, hb⟩
    exact ⟨f.cell c, f.cell c', (f.adjacent c c').mpr hadj,
      (f.keyAt_rows placements).mpr ⟨c, rfl, ha⟩, (f.keyAt_rows placements).mpr ⟨c', rfl, hb⟩⟩

end Motion

/-! ## Exactness -/

/-- Placements that `BlockKey` accepts give one observation for every pair of keys that adjoin, in
    the order of the normalized keys and with the marks of the map, and no other one; a moved layout
    gives the same pairs. -/
theorem adjacency_exact {placements : List (BlockRow φ)} (h : ∀ p ∈ placements, Accepted p)
    (m : Marks) :
    ∃ observations, extractAdjacencies placements m = .ok observations ∧
      (∀ a b, Adjoin placements a b →
        ∃ o, (observations.filter fun o => decide (o.Joins a b)) = [o]) ∧
      (∀ o ∈ observations, Adjoin placements o.a o.b ∧ o.a.normalizedKey ≤ o.b.normalizedKey ∧
        o.marks = m) ∧
      ∀ f : Motion, ∃ moved, extractAdjacencies (placements.map f.row) m = .ok moved ∧
        ∀ a b, (∃ o ∈ moved, o.Joins a b) ↔ ∃ o ∈ observations, o.Joins a b := by
  obtain ⟨observations, hobs⟩ := extractAdjacencies_of_accepted h m
  refine ⟨observations, hobs, fun a b => filter_joins hobs, fun o ho => ?_, fun f => ?_⟩
  · have hadj := (exists_joins_iff hobs o.a o.b).mp ⟨o, ho, .inl ⟨rfl, rfl⟩⟩
    exact ⟨hadj, o.ordered, marks_eq hobs o ho⟩
  · have hmoved : ∀ p ∈ placements.map f.row, Accepted p := by
      intro p hp
      obtain ⟨q, hq, rfl⟩ := List.mem_map.mp hp
      exact f.accepted_row (h q hq)
    obtain ⟨moved, hmoved⟩ := extractAdjacencies_of_accepted hmoved m
    refine ⟨moved, hmoved, fun a b => ?_⟩
    rw [exists_joins_iff hmoved, exists_joins_iff hobs, f.adjoin_rows]

/-! ## Three blocks in a row -/

/-- A placement of a road block. -/
def roadAt (x : Int) (type : String) (variant : Option String) : BlockRow Unit where
  mapId := 1
  parserVersion := "v1"
  blockFamily := "Road"
  blockType := type
  variant := variant
  placementIndex := 0
  x := some x
  y := some (-2)
  z := some 5
  rotation := 0
  flags := none
  isFree := false
  absX := none
  absY := none
  absZ := none
  yaw := none
  pitch := none
  roll := none
  createdByVersion := "v1"
  sourceArtifactIds := ⟨"1", ""⟩

/-- Two road blocks side by side, and a third one away from them. -/
def roadRow (variant : Option String) : List (BlockRow Unit) :=
  [roadAt 0 "Straight" none, roadAt 1 "Curve" none, roadAt 7 "Straight" variant]

theorem adjacency_exact_row :
    ∃ observations, extractAdjacencies (roadRow none) ⟨"s1", true, false⟩ = .ok observations ∧
      (∀ a b, Adjoin (roadRow none) a b →
        ∃ o, (observations.filter fun o => decide (o.Joins a b)) = [o]) ∧
      (∀ o ∈ observations, Adjoin (roadRow none) o.a o.b ∧
        o.a.normalizedKey ≤ o.b.normalizedKey ∧ o.marks = ⟨"s1", true, false⟩) ∧
      ∀ f : Motion, ∃ moved,
        extractAdjacencies ((roadRow none).map f.row) ⟨"s1", true, false⟩ = .ok moved ∧
        ∀ a b, (∃ o ∈ moved, o.Joins a b) ↔ ∃ o ∈ observations, o.Joins a b :=
  adjacency_exact (by decide +kernel) ⟨"s1", true, false⟩

/-- A separator in a variant: the families and the types have none, two keys adjoin, and nothing is
    observed. -/
theorem variant_separated :
    (∀ p ∈ roadRow (some "a|b"), p.blockFamily ≠ "" ∧ p.blockType ≠ "" ∧
      '|' ∉ p.blockFamily.toList ∧ '|' ∉ p.blockType.toList) ∧
    (∃ a b, Adjoin (roadRow (some "a|b")) a b) ∧
    ∀ m, extractAdjacencies (roadRow (some "a|b")) m =
      .error ⟨none, "key components must not contain the separator '|'"⟩ := by
  obtain ⟨a, ha⟩ := blockKeyFromPlacement_of_accepted (p := roadAt 0 "Straight" none) (by decide)
  obtain ⟨b, hb⟩ := blockKeyFromPlacement_of_accepted (p := roadAt 1 "Curve" none) (by decide)
  refine ⟨by decide +kernel, ?_, fun m => rfl⟩
  exact ⟨a, b, ⟨0, -2, 5⟩, ⟨1, -2, 5⟩, by decide, ⟨_, rfl, ha⟩, ⟨_, rfl, hb⟩⟩

end TraxMania.Constraints
