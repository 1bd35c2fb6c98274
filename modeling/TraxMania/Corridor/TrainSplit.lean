import TraxMania.Lib.Dict
import TraxMania.Lib.Numpy
import Mathlib.Data.Rat.Defs
import Mathlib.Algebra.Field.Rat
import Mathlib.Data.List.Perm.Basic

/-
  `corridor/ranking/train.py`, up to the fit: the rows of one label scheme, how they are split into
  rows to train on and rows held out, and which label schemes are compared on the same split.

  The split is drawn over the places in the list of the labelled corridors, and each scheme has its
  own list. So a corridor keeps its side only if it has the same place in two lists of one length,
  unless the cut leaves no choice.
-/

namespace TraxMania.Corridor

open Lib Lib.Numpy

/-! ## Numbers -/

/-- The floats of a split. -/
class SplitFloats (σ : Type) extends Sub σ, Mul σ, IntCast σ where
  /-- `int(x)`: towards zero. -/
  toInt : σ → Int

instance splitFloatsRat : SplitFloats ℚ where
  toInt q := q.num.tdiv q.den

/-- A numpy `Generator` that is only asked for a permutation of `arange(n)`. -/
structure Shuffle where
  order : Nat → Nat → List Nat
  perm : ∀ seed n, (order seed n).Perm (List.range n)

/-- Where a slice `[:cut]` of `n` entries ends and `[cut:]` starts. -/
def sliceEnd (n : Nat) (cut : Int) : Nat :=
  if cut < 0 then ((n : Int) + cut).toNat else min cut.toNat n

/-- `idx[:cut], idx[cut:]`. -/
def sliceAt {α : Type} (idx : List α) (cut : Int) : List α × List α :=
  (idx.take (sliceEnd idx.length cut), idx.drop (sliceEnd idx.length cut))

section

variable {σ : Type} [SplitFloats σ]

/-- `int(n * (1 - test_frac))`. -/
def cutOf (n : Nat) (testFrac : σ) : Int :=
  SplitFloats.toInt (((n : Int) : σ) * (((1 : Int) : σ) - testFrac))

/-- `_deterministic_split(n, test_frac, seed)`. -/
def deterministicSplit (S : Shuffle) (n : Nat) (testFrac : σ) (seed : Nat) :
    List Nat × List Nat :=
  sliceAt (S.order seed n) (cutOf n testFrac)

end

/-! ## One scheme -/

/-- `CorridorFeatureVector`. -/
structure CorridorFeatureVector (σ : Type) where
  corridorId : Int
  mapId : Int
  features : List σ
  corridorConfidence : Option σ

/-- The corridors of a training run: no id comes twice. -/
structure CorridorSet (σ : Type) where
  vectors : List (CorridorFeatureVector σ)
  nodup : (vectors.map CorridorFeatureVector.corridorId).Nodup

/-- The feature matrix. -/
def CorridorSet.matrix {σ : Type} (C : CorridorSet σ) : List (List σ) :=
  C.vectors.map CorridorFeatureVector.features

/-- What `_train_one_scheme` fits and evaluates on. -/
structure SchemeRows (σ : Type) where
  keptVectors : List (CorridorFeatureVector σ)
  trainIdx : List Nat
  testIdx : List Nat
  xTrain : List (List σ)
  xTest : List (List σ)
  yTrain : List σ
  yTest : List σ
  swTrain : Option (List σ)

section

variable {σ : Type} [SplitFloats σ]

/-- `xs[keep_mask]`. -/
def keepRows {α : Type} (xs : List α) (keepMask : List Bool) : List α :=
  (xs.zip keepMask).filterMap fun e => if e.2 then some e.1 else none

/-- `_train_one_scheme`, up to the fit. Only the corridors with a label take part. -/
def trainOneScheme (S : Shuffle) (vectors : List (CorridorFeatureVector σ)) (X : List (List σ))
    (labelById : Dict Int σ) (testFrac : σ) (randomSeed : Nat)
    (weightById : Option (Dict Int σ)) : Option (SchemeRows σ) :=
  if labelById.items.isEmpty then none
  else
    let keepMask := vectors.map fun v => (labelById.get? v.corridorId).isSome
    if keepMask.any id then
      let keptVectors := keepRows vectors keepMask
      let xKept := keepRows X keepMask
      let y := keptVectors.filterMap fun v => labelById.get? v.corridorId
      let sampleWeights := weightById.map fun weights =>
        keptVectors.map fun v => (weights.get? v.corridorId).getD ((1 : Int) : σ)
      let idx := deterministicSplit S keptVectors.length testFrac randomSeed
      some ⟨keptVectors, idx.1, idx.2, takeAt xKept idx.1, takeAt xKept idx.2, takeAt y idx.1,
        takeAt y idx.2, sampleWeights.map fun sw => takeAt sw idx.1⟩
    else none

end

/-! ## Orders with a place on a given side -/

theorem sliceEnd_le (n : Nat) (cut : Int) : sliceEnd n cut ≤ n := by
  unfold sliceEnd
  split <;> omega

section

variable {n t i j : Nat}

theorem exists_order_trained (hi : i < n) (ht : 0 < t) :
    ∃ l : List Nat, l.Perm (List.range n) ∧ i ∉ l.drop t := by
  have hmem : i ∈ List.range n := List.mem_range.mpr hi
  refine ⟨i :: (List.range n).erase i, (List.perm_cons_erase hmem).symm, ?_⟩
  intro hdrop
  obtain ⟨k, rfl⟩ : ∃ k, t = k + 1 := ⟨t - 1, by omega⟩
  rw [List.drop_succ_cons] at hdrop
  exact List.nodup_range.not_mem_erase (List.mem_of_mem_drop hdrop)

theorem mem_drop_concat {l : List Nat} (h : (l ++ [i]).Perm (List.range n)) (ht : t < n) :
    i ∈ (l ++ [i]).drop t := by
  have hlength := h.length_eq
  rw [List.length_append, List.length_singleton, List.length_range] at hlength
  rw [List.drop_append_of_le_length (by omega)]
  exact List.mem_append_right _ (List.mem_singleton_self i)

theorem exists_order_held (hi : i < n) (ht : t < n) :
    ∃ l : List Nat, l.Perm (List.range n) ∧ i ∈ l.drop t := by
  have hmem : i ∈ List.range n := List.mem_range.mpr hi
  have hperm : ((List.range n).erase i ++ [i]).Perm (List.range n) :=
    (List.perm_append_singleton _ _).trans (List.perm_cons_erase hmem).symm
  exact ⟨_, hperm, mem_drop_concat hperm ht⟩

/-- Two places can be parted, unless the cut is at an end. -/
theorem exists_order_parted (hi : i < n) (hj : j < n) (hij : i ≠ j) (h0 : 0 < t) (ht : t < n) :
    ∃ l : List Nat, l.Perm (List.range n) ∧ i ∉ l.drop t ∧ j ∈ l.drop t := by
  have hmem : i ∈ List.range n := List.mem_range.mpr hi
  have hmem' : j ∈ (List.range n).erase i :=
    (List.mem_erase_of_ne hij.symm).mpr (List.mem_range.mpr hj)
  have htail : (((List.range n).erase i).erase j ++ [j]).Perm ((List.range n).erase i) :=
    (List.perm_append_singleton _ _).trans (List.perm_cons_erase hmem').symm
  have hperm : (i :: ((List.range n).erase i).erase j ++ [j]).Perm (List.range n) :=
    (htail.cons i).trans (List.perm_cons_erase hmem).symm
  refine ⟨_, hperm, ?_, mem_drop_concat hperm ht⟩
  intro hdrop
  obtain ⟨k, rfl⟩ : ∃ k, t = k + 1 := ⟨t - 1, by omega⟩
  rw [List.cons_append, List.drop_succ_cons] at hdrop
  exact List.nodup_range.not_mem_erase (htail.subset (List.mem_of_mem_drop hdrop))

end

/-- Another order of `n` entries. -/
def Shuffle.set (S : Shuffle) (n : Nat) {l : List Nat} (h : l.Perm (List.range n)) : Shuffle where
  order seed m := if m = n then l else S.order seed m
  perm seed m := by
    split
    · next heq => exact heq ▸ h
    · exact S.perm seed m

/-- The shuffle that leaves everything where it is. -/
def Shuffle.still : Shuffle where
  order _ n := List.range n
  perm _ _ := List.Perm.refl _

theorem Shuffle.set_self (S : Shuffle) {n : Nat} {l : List Nat} (h : l.Perm (List.range n))
    (seed : Nat) : (S.set n h).order seed n = l := if_pos rfl

theorem Shuffle.set_of_ne (S : Shuffle) {n m : Nat} {l : List Nat} (h : l.Perm (List.range n))
    (hm : m ≠ n) (seed : Nat) : (S.set n h).order seed m = S.order seed m := if_neg hm

/-! ## Held out -/

section

variable {σ : Type} [SplitFloats σ]

/-- The corridor is in the test set of the scheme. -/
def HeldOut (rows : Option (SchemeRows σ)) (corridorId : Int) : Prop :=
  ∃ r ∈ rows, corridorId ∈
    (takeAt r.keptVectors r.testIdx).map CorridorFeatureVector.corridorId

/-- The model of the scheme is trained on the corridor. -/
def TrainedOn (rows : Option (SchemeRows σ)) (corridorId : Int) : Prop :=
  ∃ r ∈ rows, corridorId ∈
    (takeAt r.keptVectors r.trainIdx).map CorridorFeatureVector.corridorId

/-- The corridors with a label, in their order. -/
def labelledIds (C : CorridorSet σ) (labels : Dict Int σ) : List Int :=
  (C.vectors.map CorridorFeatureVector.corridorId).filter fun id => (labels.get? id).isSome

/-- How many of `n` corridors a model is trained on. -/
def trainedCount (n : Nat) (testFrac : σ) : Nat := sliceEnd n (cutOf n testFrac)

omit [SplitFloats σ] in
theorem keepRows_map {α : Type} (xs : List α) (p : α → Bool) :
    keepRows xs (xs.map p) = xs.filter p := by
  unfold keepRows
  induction xs with
  | nil => rfl
  | cons x xs ih =>
    rw [List.map_cons, List.zip_cons_cons, List.filterMap_cons, ih, List.filter_cons]
    cases p x <;> rfl

theorem mem_map_takeAt {α : Type} {f : α → Int} {xs : List α} {idx : List Nat} {id : Int}
    (hnodup : (xs.map f).Nodup) (hid : id ∈ xs.map f) :
    id ∈ (takeAt xs idx).map f ↔ (xs.map f).idxOf id ∈ idx := by
  have hlt := List.idxOf_lt_length_of_mem hid
  have hget : (xs.map f)[(xs.map f).idxOf id]? = some id := List.getElem?_idxOf hid
  unfold takeAt
  rw [List.map_filterMap, List.mem_filterMap]
  simp only [← List.getElem?_map]
  constructor
  · rintro ⟨k, hk, hkid⟩
    have heq := (List.getElem?_inj hlt hnodup).mp (hget.trans hkid.symm)
    rwa [heq]
  · intro hmem
    exact ⟨_, hmem, hget⟩

variable (S : Shuffle) {C : CorridorSet σ} {labels : Dict Int σ} {id : Int}

/-- The sides of a labelled corridor, by its place among the labelled ones. -/
theorem trainOneScheme_sides (hid : id ∈ labelledIds C labels) (testFrac : σ) (seed : Nat)
    (weights : Option (Dict Int σ)) :
    (HeldOut (trainOneScheme S C.vectors C.matrix labels testFrac seed weights) id ↔
        (labelledIds C labels).idxOf id ∈
          (S.order seed (labelledIds C labels).length).drop
            (trainedCount (labelledIds C labels).length testFrac)) ∧
      (TrainedOn (trainOneScheme S C.vectors C.matrix labels testFrac seed weights) id ↔
        (labelledIds C labels).idxOf id ∈
          (S.order seed (labelledIds C labels).length).take
            (trainedCount (labelledIds C labels).length testFrac)) := by
  have hkept : (C.vectors.filter fun v => (labels.get? v.corridorId).isSome).map
      CorridorFeatureVector.corridorId = labelledIds C labels := by
    unfold labelledIds
    rw [List.filter_map]
    rfl
  have hnodup : (labelledIds C labels).Nodup := C.nodup.filter _
  have hlength : (C.vectors.filter fun v => (labels.get? v.corridorId).isSome).length =
      (labelledIds C labels).length := by rw [← hkept, List.length_map]
  have horder : (S.order seed (labelledIds C labels).length).length =
      (labelledIds C labels).length := by
    rw [(S.perm seed _).length_eq, List.length_range]
  obtain ⟨hmem, hlabel⟩ := List.mem_filter.mp hid
  obtain ⟨v, hv, rfl⟩ := List.mem_map.mp hmem
  have hitems : labels.items.isEmpty = false := by
    obtain ⟨y, hy⟩ := Option.isSome_iff_exists.mp hlabel
    exact List.isEmpty_eq_false_iff.mpr (List.ne_nil_of_mem (Dict.mem_items_of_get? hy))
  have hany : (C.vectors.map fun v => (labels.get? v.corridorId).isSome).any id = true := by
    rw [List.any_map, List.any_eq_true]
    exact ⟨v, hv, hlabel⟩
  unfold trainOneScheme
  simp only [hitems, Bool.false_eq_true, if_false, hany, if_true, keepRows_map, HeldOut,
    TrainedOn, Option.mem_some_iff, exists_eq_left', deterministicSplit, sliceAt, hlength, horder]
  rw [← hkept] at hnodup hid ⊢
  exact ⟨mem_map_takeAt hnodup hid, mem_map_takeAt hnodup hid⟩

/-! ## Two schemes -/

/-- A corridor with a label under both schemes is held out by both or by neither, so no model is
    trained on a row of the other's test set. -/
def SplitAlike (C : CorridorSet σ) (labelsA labelsB : Dict Int σ)
    (rowsA rowsB : Option (SchemeRows σ)) : Prop :=
  ∀ id ∈ labelledIds C labelsA, id ∈ labelledIds C labelsB →
    (HeldOut rowsA id ↔ HeldOut rowsB id) ∧
      ¬ (TrainedOn rowsA id ∧ HeldOut rowsB id) ∧ ¬ (TrainedOn rowsB id ∧ HeldOut rowsA id)

/-- The corridor has one place in two lists of one length, or the cut leaves no choice. -/
def SamePlace (C : CorridorSet σ) (labelsA labelsB : Dict Int σ) (testFrac : σ) (id : Int) :
    Prop :=
  let idsA := labelledIds C labelsA
  let idsB := labelledIds C labelsB
  (idsA.length = idsB.length ∧ idsA.idxOf id = idsB.idxOf id) ∨
    (trainedCount idsA.length testFrac = 0 ∧ trainedCount idsB.length testFrac = 0) ∨
    (trainedCount idsA.length testFrac = idsA.length ∧
      trainedCount idsB.length testFrac = idsB.length)

end

/-- Trained on and held out are the two sides of a permutation. -/
theorem mem_take_iff_not_mem_drop {n t i : Nat} {l : List Nat} (h : l.Perm (List.range n))
    (hi : i < n) : i ∈ l.take t ↔ i ∉ l.drop t := by
  have hnodup : l.Nodup := h.nodup_iff.mpr List.nodup_range
  have hmem : i ∈ l.take t ++ l.drop t := by
    rw [List.take_append_drop]
    exact h.mem_iff.mpr (List.mem_range.mpr hi)
  rw [← List.take_append_drop t l, List.nodup_append] at hnodup
  constructor
  · intro htake hdrop
    exact hnodup.2.2 i htake i hdrop rfl
  · exact (List.mem_append.mp hmem).resolve_right

section

variable {σ : Type} [SplitFloats σ] {C : CorridorSet σ} {labels : Dict Int σ} {id : Int}

theorem trainedOn_iff_not_heldOut (S : Shuffle) (hid : id ∈ labelledIds C labels) (testFrac : σ)
    (seed : Nat) (weights : Option (Dict Int σ)) :
    TrainedOn (trainOneScheme S C.vectors C.matrix labels testFrac seed weights) id ↔
      ¬ HeldOut (trainOneScheme S C.vectors C.matrix labels testFrac seed weights) id := by
  obtain ⟨hheld, htrained⟩ := trainOneScheme_sides S hid testFrac seed weights
  rw [hheld, htrained]
  exact mem_take_iff_not_mem_drop (S.perm seed _) (List.idxOf_lt_length_of_mem hid)

/-- The side of a corridor with the place `i` among `n` labelled ones. -/
def heldPlace (S : Shuffle) (seed n : Nat) (testFrac : σ) (i : Nat) : Prop :=
  i ∈ (S.order seed n).drop (trainedCount n testFrac)

/-- Two places of two lists are on one side under every shuffle. -/
theorem heldPlace_alike_iff {n m i j : Nat} (hi : i < n) (hj : j < m) (testFrac : σ)
    (seed : Nat) :
    (∀ S : Shuffle, heldPlace S seed n testFrac i ↔ heldPlace S seed m testFrac j) ↔
      (n = m ∧ i = j) ∨ (trainedCount n testFrac = 0 ∧ trainedCount m testFrac = 0) ∨
        (trainedCount n testFrac = n ∧ trainedCount m testFrac = m) := by
  have hn : trainedCount n testFrac ≤ n := sliceEnd_le n _
  have hm : trainedCount m testFrac ≤ m := sliceEnd_le m _
  unfold heldPlace
  constructor
  · intro hall
    by_contra hcond
    by_cases hnm : n = m
    · subst hnm
      obtain ⟨l, hl, hil, hjl⟩ := exists_order_parted (t := trainedCount n testFrac) hi hj
        (by omega) (by omega) (by omega)
      have hS := hall (Shuffle.still.set n hl)
      rw [Shuffle.set_self] at hS
      exact hil (hS.mpr hjl)
    · by_cases hside : trainedCount n testFrac < n ∧ 0 < trainedCount m testFrac
      · obtain ⟨l, hl, hil⟩ := exists_order_held hi hside.1
        obtain ⟨l', hl', hjl⟩ := exists_order_trained hj hside.2
        have hS := hall ((Shuffle.still.set n hl).set m hl')
        rw [Shuffle.set_self, Shuffle.set_of_ne _ _ hnm, Shuffle.set_self] at hS
        exact hjl (hS.mp hil)
      · obtain ⟨l, hl, hil⟩ := exists_order_trained (t := trainedCount n testFrac) hi (by omega)
        obtain ⟨l', hl', hjl⟩ := exists_order_held (t := trainedCount m testFrac) hj (by omega)
        have hS := hall ((Shuffle.still.set n hl).set m hl')
        rw [Shuffle.set_self, Shuffle.set_of_ne _ _ hnm, Shuffle.set_self] at hS
        exact hil (hS.mpr hjl)
  · have hlength : ∀ (S : Shuffle) (k : Nat), (S.order seed k).length = k := by
      intro S k
      rw [(S.perm seed k).length_eq, List.length_range]
    rintro (⟨rfl, rfl⟩ | ⟨h0, h0'⟩ | ⟨hfull, hfull'⟩) S
    · rfl
    · rw [h0, h0', List.drop_zero, List.drop_zero, (S.perm seed n).mem_iff,
        (S.perm seed m).mem_iff, List.mem_range, List.mem_range]
      exact ⟨fun _ => hj, fun _ => hi⟩
    · have hnil : (S.order seed n).drop n = [] := List.drop_eq_nil_of_le (hlength S n).le
      have hnil' : (S.order seed m).drop m = [] := List.drop_eq_nil_of_le (hlength S m).le
      rw [hfull, hfull', hnil, hnil']
      exact ⟨fun h => absurd h List.not_mem_nil, fun h => absurd h List.not_mem_nil⟩

/-- Two schemes are split alike, whatever the shuffle, if and only if each corridor that has a label
    under both has the same place in both lists or the cut leaves no choice. -/
theorem split_alike_iff (C : CorridorSet σ) (labelsA labelsB : Dict Int σ) (testFrac : σ)
    (seed : Nat) (weightsA weightsB : Option (Dict Int σ)) :
    (∀ S : Shuffle, SplitAlike C labelsA labelsB
      (trainOneScheme S C.vectors C.matrix labelsA testFrac seed weightsA)
      (trainOneScheme S C.vectors C.matrix labelsB testFrac seed weightsB)) ↔
        ∀ id ∈ labelledIds C labelsA, id ∈ labelledIds C labelsB →
          SamePlace C labelsA labelsB testFrac id := by
  have hplaces : ∀ id ∈ labelledIds C labelsA, id ∈ labelledIds C labelsB →
      ((∀ S : Shuffle,
        HeldOut (trainOneScheme S C.vectors C.matrix labelsA testFrac seed weightsA) id ↔
          HeldOut (trainOneScheme S C.vectors C.matrix labelsB testFrac seed weightsB) id) ↔
        SamePlace C labelsA labelsB testFrac id) := by
    intro id hA hB
    have hiff := heldPlace_alike_iff (List.idxOf_lt_length_of_mem hA)
      (List.idxOf_lt_length_of_mem hB) testFrac seed
    rw [← show _ ↔ SamePlace C labelsA labelsB testFrac id from hiff]
    refine forall_congr' fun S => ?_
    rw [(trainOneScheme_sides S hA testFrac seed weightsA).1,
      (trainOneScheme_sides S hB testFrac seed weightsB).1]
    rfl
  constructor
  · intro hall id hA hB
    exact (hplaces id hA hB).mp fun S => (hall S id hA hB).1
  · intro hcond S id hA hB
    have halike := (hplaces id hA hB).mpr (hcond id hA hB) S
    rw [trainedOn_iff_not_heldOut S hA, trainedOn_iff_not_heldOut S hB]
    exact ⟨halike, fun h => h.1 (halike.mpr h.2), fun h => h.1 (halike.mp h.2)⟩

end

/-- The corridors 1 to 10. -/
def tenCorridors : CorridorSet ℚ where
  vectors := [1, 2, 3, 4, 5, 6, 7, 8, 9, 10].map fun id => ⟨id, 1, [], none⟩
  nodup := by decide

/-- One label for each of the ids. -/
def labelAll (ids : List Int) : Dict Int ℚ :=
  ids.foldl (fun acc id => acc.upsert id fun _ => 1 / 2) Dict.empty

/-- One scheme labels all ten corridors, the other the last five: corridor 9 is held out by the
    first, and the model of the second is trained on it. -/
theorem ninth_corridor_on_both_sides :
    ¬ SplitAlike tenCorridors (labelAll [1, 2, 3, 4, 5, 6, 7, 8, 9, 10]) (labelAll [6, 7, 8, 9, 10])
      (trainOneScheme Shuffle.still tenCorridors.vectors tenCorridors.matrix
        (labelAll [1, 2, 3, 4, 5, 6, 7, 8, 9, 10]) (1 / 5) 42 none)
      (trainOneScheme Shuffle.still tenCorridors.vectors tenCorridors.matrix
        (labelAll [6, 7, 8, 9, 10]) (1 / 5) 42 none) := by
  intro halike
  have hall : (9 : Int) ∈ labelledIds tenCorridors (labelAll [1, 2, 3, 4, 5, 6, 7, 8, 9, 10]) := by
    decide
  have hlate : (9 : Int) ∈ labelledIds tenCorridors (labelAll [6, 7, 8, 9, 10]) := by decide
  refine (halike 9 hall hlate).2.2 ⟨?_, ?_⟩
  · rw [(trainOneScheme_sides Shuffle.still hlate _ _ _).2]
    decide +kernel
  · rw [(trainOneScheme_sides Shuffle.still hall _ _ _).1]
    decide +kernel

end TraxMania.Corridor
