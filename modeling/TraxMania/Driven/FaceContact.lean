import TraxMania.Driven.DrivenPath

/-
  Which placements the driven path takes for neighbours. A cell keeps its first
  `MAX_PLACEMENTS_PER_CELL` placements as owners, while every placement looks for the owners of its
  cells and of the cells next to them: up to the cap the relation is face contact, beyond it a
  placement sees neighbours that do not see it.
-/

namespace TraxMania.Driven

open TraxMania.Grid Lib

/-! ## Contact -/

/-- Two placements share a cell, or have two cells that share a face. -/
def Contact (footprints : Dict Nat (List Cell)) (p q : Nat) : Prop :=
  ∃ cells, footprints.get? p = some cells ∧ ∃ cells', footprints.get? q = some cells' ∧
    ∃ c ∈ cells, ∃ c' ∈ cells', (c'.x - c.x).natAbs + (c'.y - c.y).natAbs + (c'.z - c.z).natAbs ≤ 1

/-- The placements that cover a cell, in the order of the footprints. -/
def coverers (footprints : Dict Nat (List Cell)) (c : Cell) : List Nat :=
  (footprints.items.filter fun f => decide (c ∈ f.2)).map Prod.fst

/-- The placement is one of the first that cover the cell, up to the cap. -/
def Owns (footprints : Dict Nat (List Cell)) (q : Nat) (c : Cell) : Prop :=
  q ∈ (coverers footprints c).take maxPlacementsPerCell

/-- No cell is covered by more placements than the cap. -/
def Uncrowded (footprints : Dict Nat (List Cell)) : Prop :=
  ∀ c, (coverers footprints c).length ≤ maxPlacementsPerCell

theorem mem_deltas {d : Cell} : d ∈ deltas ↔ d.x.natAbs + d.y.natAbs + d.z.natAbs ≤ 1 := by
  have hsplit : d.x.natAbs + d.y.natAbs + d.z.natAbs ≤ 1 ↔
      d = ⟨0, 0, 0⟩ ∨ d.x.natAbs + d.y.natAbs + d.z.natAbs = 1 := by
    rw [Nat.le_one_iff_eq_zero_or_eq_one, Cell.ext_iff]
    refine or_congr_left ?_
    simp only [Nat.add_eq_zero_iff, Int.natAbs_eq_zero, and_assoc]
  rw [hsplit, Cell.natAbs_eq_one_iff]
  simp only [deltas, List.mem_cons, List.not_mem_nil, or_false]
  constructor
  · intro h
    rcases h with rfl | rfl | rfl | rfl | rfl | rfl | rfl <;> decide
  · intro h
    rcases h with rfl | rfl | rfl | rfl | rfl | rfl | rfl <;> decide

section Relation

variable {footprints : Dict Nat (List Cell)}

theorem mem_coverers {c : Cell} {q : Nat} :
    q ∈ coverers footprints c ↔ ∃ cells, footprints.get? q = some cells ∧ c ∈ cells := by
  unfold coverers
  rw [List.mem_map]
  constructor
  · intro ⟨f, hf, hq⟩
    obtain ⟨hf, hc⟩ := List.mem_filter.mp hf
    subst hq
    exact ⟨f.2, Dict.get?_eq_some hf, of_decide_eq_true hc⟩
  · intro ⟨cells, hget, hc⟩
    exact ⟨(q, cells), List.mem_filter.mpr ⟨Dict.mem_items_of_get? hget, decide_eq_true hc⟩, rfl⟩

/-! ## The owners of a cell -/

/-- Appending to a bucket up to the cap keeps the first entries. -/
theorem foldl_capped (cap : Nat) (owners bucket : List Nat) :
    owners.foldl (fun bucket owner => if bucket.length < cap then bucket ++ [owner] else bucket)
      (bucket.take cap) = (bucket ++ owners).take cap := by
  induction owners generalizing bucket with
  | nil => rw [List.append_nil, List.foldl_nil]
  | cons owner owners ih =>
    have hstep : (if (bucket.take cap).length < cap then bucket.take cap ++ [owner]
        else bucket.take cap) = (bucket ++ [owner]).take cap := by
      rw [List.length_take]
      by_cases h : bucket.length < cap
      · rw [if_pos (by omega), List.take_of_length_le (by omega),
          List.take_of_length_le (by rw [List.length_append, List.length_singleton]; omega)]
      · rw [if_neg (by omega), List.take_append_of_le_length (by omega)]
    rw [List.foldl_cons, hstep, ih, List.append_assoc, List.singleton_append]

/-- The owners of a cell after a loop over cells and owners. -/
theorem getD_get?_foldl_addOwner (rows : List (Cell × Nat)) (c : Cell) :
    ((rows.foldl (fun owners r => addOwner owners r.1 r.2) Dict.empty).get? c).getD [] =
      ((rows.filter fun r => decide (r.1 = c)).map Prod.snd).take maxPlacementsPerCell := by
  have hloop : ∀ (rows : List (Cell × Nat)) (old : Option (List Nat)),
      (rows.foldl (fun old r => some
        (if (old.getD []).length < maxPlacementsPerCell then old.getD [] ++ [r.2]
          else old.getD [])) old).getD [] =
      (rows.map Prod.snd).foldl (fun bucket owner =>
        if bucket.length < maxPlacementsPerCell then bucket ++ [owner] else bucket)
          (old.getD []) := by
    intro rows
    induction rows with
    | nil => exact fun old => rfl
    | cons r rows ih =>
      intro old
      rw [List.foldl_cons, ih, List.map_cons, List.foldl_cons]
      rfl
  unfold addOwner
  rw [Dict.get?_foldl_upsert, hloop]
  have hcapped := foldl_capped maxPlacementsPerCell
    ((rows.filter fun r => decide (r.1 = c)).map Prod.snd) []
  rwa [List.take_nil, List.nil_append] at hcapped

/-- The owners of a cell: the first placements that cover it. -/
theorem getD_cellOwner (hsets : ∀ f ∈ footprints.items, f.2.Nodup) (c : Cell) :
    ((cellOwner footprints).get? c).getD [] =
      (coverers footprints c).take maxPlacementsPerCell := by
  have hrows : cellOwner footprints =
      (footprints.items.flatMap fun f => f.2.map fun cell => (cell, f.1)).foldl
        (fun owners r => addOwner owners r.1 r.2) Dict.empty := by
    unfold cellOwner
    rw [List.foldl_flatMap]
    simp only [List.foldl_map]
  have hcover : ∀ items : List (Nat × List Cell), (∀ f ∈ items, f.2.Nodup) →
      ((items.flatMap fun f => f.2.map fun cell => (cell, f.1)).filter
        fun r => decide (r.1 = c)).map Prod.snd =
      (items.filter fun f => decide (c ∈ f.2)).map Prod.fst := by
    intro items
    induction items with
    | nil => exact fun _ => rfl
    | cons f items ih =>
      intro hsets
      rw [List.forall_mem_cons] at hsets
      rw [List.flatMap_cons, List.filter_append, List.map_append, ih hsets.2, List.filter_map,
        List.map_map]
      have hone : (f.2.filter ((fun r : Cell × Nat => decide (r.1 = c)) ∘ fun cell => (cell, f.1))) =
          if c ∈ f.2 then [c] else [] := by
        show f.2.filter (fun cell => decide (cell = c)) = _
        rw [List.filter_eq, hsets.1.count]
        split <;> rfl
      rw [hone, List.filter_cons]
      by_cases hc : c ∈ f.2
      · rw [if_pos hc, if_pos (decide_eq_true hc)]
        rfl
      · rw [if_neg hc, if_neg (by simpa using hc)]
        rfl
  rw [hrows, getD_get?_foldl_addOwner]
  unfold coverers
  rw [hcover _ hsets]

/-! ## The relation -/

theorem get?_adjacency (p : Nat) :
    (adjacency footprints).get? p =
      (footprints.get? p).map (touching (cellOwner footprints) p) := by
  unfold adjacency
  dsimp only
  cases hget : footprints.get? p with
  | none =>
    rw [Dict.get?_foldl_overwrite, Option.map_none, Option.map_eq_none_iff,
      List.getLast?_eq_none_iff, List.filter_eq_nil_iff]
    intro f hf hp
    obtain rfl := of_decide_eq_true hp
    rw [Dict.get?_eq_some hf] at hget
    cases hget
  | some cells =>
    rw [Option.map_some, Dict.get?_foldl_of_nodup footprints.nodup]
    exact ⟨(p, cells), Dict.mem_items_of_get? hget, rfl, rfl⟩

theorem has_adjacency (hsets : ∀ f ∈ footprints.items, f.2.Nodup) (p q : Nat) :
    (adjacency footprints).has p q = true ↔
      p ≠ q ∧ ∃ cells, footprints.get? p = some cells ∧
        ∃ c ∈ cells, ∃ d ∈ deltas, Owns footprints q (c + d) := by
  unfold Adjacency.has
  rw [get?_adjacency, List.contains_iff_mem]
  cases hget : footprints.get? p with
  | none => simp
  | some cells =>
    rw [Option.map_some, Option.getD_some]
    unfold touching Owns
    simp only [getD_cellOwner hsets, List.mem_flatMap, List.mem_filter, decide_eq_true_eq,
      Option.some.injEq, exists_eq_left']
    constructor
    · rintro ⟨c, hc, d, hd, hown, hne⟩
      exact ⟨fun heq => hne heq.symm, c, hc, d, hd, hown⟩
    · rintro ⟨hne, c, hc, d, hd, hown⟩
      exact ⟨c, hc, d, hd, hown, fun heq => hne heq.symm⟩

/-- Up to the cap every placement that covers a cell owns it. -/
theorem owns_iff (huncrowded : Uncrowded footprints) (q : Nat) (c : Cell) :
    Owns footprints q c ↔ ∃ cells, footprints.get? q = some cells ∧ c ∈ cells := by
  unfold Owns
  rw [List.take_of_length_le (huncrowded c), mem_coverers]

theorem Contact.symm {p q : Nat} (h : Contact footprints p q) : Contact footprints q p := by
  obtain ⟨cells, hp, cells', hq, c, hc, c', hc', hdist⟩ := h
  exact ⟨cells', hq, cells, hp, c', hc', c, hc, by omega⟩

theorem contact_iff {p q : Nat} :
    Contact footprints p q ↔ ∃ cells, footprints.get? p = some cells ∧ ∃ c ∈ cells, ∃ d ∈ deltas,
      ∃ cells', footprints.get? q = some cells' ∧ c + d ∈ cells' := by
  constructor
  · intro ⟨cells, hp, cells', hq, c, hc, c', hc', hdist⟩
    refine ⟨cells, hp, c, hc, c' - c, mem_deltas.mpr hdist, cells', hq, ?_⟩
    rwa [Cell.add_sub_of]
  · intro ⟨cells, hp, c, hc, d, hd, cells', hq, hcd⟩
    have hdist := mem_deltas.mp hd
    refine ⟨cells, hp, cells', hq, c, hc, c + d, hcd, ?_⟩
    simp only [Cell.add_x, Cell.add_y, Cell.add_z]
    omega

theorem has_iff_contact (hsets : ∀ f ∈ footprints.items, f.2.Nodup)
    (huncrowded : Uncrowded footprints) (p q : Nat) :
    (adjacency footprints).has p q = true ↔ p ≠ q ∧ Contact footprints p q := by
  rw [has_adjacency hsets, contact_iff]
  simp only [owns_iff huncrowded]

theorem transition_comm {adjacent : Adjacency} (h : ∀ a b, adjacent.has a b = adjacent.has b a)
    (p s : State) : transition adjacent p s = transition adjacent s p := by
  unfold transition
  by_cases hps : p = s
  · rw [if_pos hps, if_pos hps.symm]
  · rw [if_neg hps, if_neg (Ne.symm hps)]
    cases p with
    | placement a =>
      cases s with
      | placement b =>
        dsimp only
        rw [h a b]
      | airborne => rfl
      | offSurface => rfl
    | airborne => cases s <;> rfl
    | offSurface => cases s <;> rfl

/-- A placement is related to the owners of its cells and of the cells that share a face with
    them. Where no cell has more placements than the cap this is face contact, and a move costs the
    same there and back. -/
theorem face_contact_up_to_cap (footprints : Dict Nat (List Cell))
    (hsets : ∀ f ∈ footprints.items, f.2.Nodup) :
    (∀ p q, (adjacency footprints).has p q = true ↔ p ≠ q ∧
      ∃ cells, footprints.get? p = some cells ∧ ∃ c ∈ cells, ∃ c',
        (c'.x - c.x).natAbs + (c'.y - c.y).natAbs + (c'.z - c.z).natAbs ≤ 1 ∧
          Owns footprints q c') ∧
    (Uncrowded footprints →
      (∀ p q, (adjacency footprints).has p q = true ↔ p ≠ q ∧ Contact footprints p q) ∧
      ∀ p q : State, transition (adjacency footprints) p q =
        transition (adjacency footprints) q p) := by
  refine ⟨fun p q => ?_, fun huncrowded => ⟨has_iff_contact hsets huncrowded, ?_⟩⟩
  · rw [has_adjacency hsets]
    have hcells : ∀ c, (∃ d ∈ deltas, Owns footprints q (c + d)) ↔ ∃ c',
        (c'.x - c.x).natAbs + (c'.y - c.y).natAbs + (c'.z - c.z).natAbs ≤ 1 ∧
          Owns footprints q c' := by
      intro c
      constructor
      · intro ⟨d, hd, hown⟩
        have hdist := mem_deltas.mp hd
        refine ⟨c + d, ?_, hown⟩
        simp only [Cell.add_x, Cell.add_y, Cell.add_z]
        omega
      · intro ⟨c', hdist, hown⟩
        refine ⟨c' - c, mem_deltas.mpr hdist, ?_⟩
        rwa [Cell.add_sub_of]
    simp only [hcells]
  · have hcomm : ∀ a b, (adjacency footprints).has a b = (adjacency footprints).has b a := by
      intro a b
      rw [Bool.eq_iff_iff, has_iff_contact hsets huncrowded, has_iff_contact hsets huncrowded]
      exact and_congr ne_comm ⟨Contact.symm, Contact.symm⟩
    exact transition_comm hcomm

end Relation

/-- Two blocks side by side. -/
def sideBySide : Dict Nat (List Cell) := ⟨[(4, [⟨0, 9, 0⟩]), (7, [⟨1, 9, 0⟩])], by decide⟩

theorem sideBySide_contact :
    (∀ p q, (adjacency sideBySide).has p q = true ↔ p ≠ q ∧
      ∃ cells, sideBySide.get? p = some cells ∧ ∃ c ∈ cells, ∃ c',
        (c'.x - c.x).natAbs + (c'.y - c.y).natAbs + (c'.z - c.z).natAbs ≤ 1 ∧
          Owns sideBySide q c') ∧
    (Uncrowded sideBySide →
      (∀ p q, (adjacency sideBySide).has p q = true ↔ p ≠ q ∧ Contact sideBySide p q) ∧
      ∀ p q : State, transition (adjacency sideBySide) p q =
        transition (adjacency sideBySide) q p) :=
  face_contact_up_to_cap sideBySide (by decide)

/-- Seventeen blocks at one cell. -/
def pile : Dict Nat (List Cell) :=
  ⟨(List.range 17).map fun i => (i, [⟨0, 9, 0⟩]), by decide⟩

/-- The seventeenth sees the first, which does not see it. -/
theorem pile_one_sided :
    ¬ ∀ footprints : Dict Nat (List Cell), (∀ f ∈ footprints.items, f.2.Nodup) →
      (∀ p q, p ≠ q → ((adjacency footprints).has p q = true ↔ Contact footprints p q)) ∧
      ∀ p q : State, transition (adjacency footprints) p q =
        transition (adjacency footprints) q p := by
  intro h
  have hsee := ((h pile (by decide)).1 0 16 (by decide)).mpr
    ⟨[⟨0, 9, 0⟩], by decide, [⟨0, 9, 0⟩], by decide, ⟨0, 9, 0⟩, by decide, ⟨0, 9, 0⟩, by decide,
      by decide⟩
  have hblind : (adjacency pile).has 0 16 = false := by decide +kernel
  rw [hblind] at hsee
  cases hsee

end TraxMania.Driven
