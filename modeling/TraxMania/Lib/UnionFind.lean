import TraxMania.Lib.Loop
import Mathlib.Logic.Function.Iterate

/-
  Union-find with path halving and union by size. A key that was never seen is its own parent and
  of size one, as `_ensure` would add it.

  Sizes go up along the parent links and stay below a bound, so `find` ends. `root` follows the
  links without changing them; every operation is described by what it does to the roots.

  Nothing here is about a program in particular.
-/

namespace Lib

open Lib.Loop

variable {κ : Type*} [DecidableEq κ]

/-- The links and the sizes. `bound` is only there to end the loop of `find`. -/
structure UnionFind (κ : Type*) where
  parent : κ → κ
  size : κ → Nat
  bound : Nat
  size_pos : ∀ x, 0 < size x
  size_le : ∀ x, size x ≤ bound
  size_lt : ∀ x, parent x ≠ x → size x < size (parent x)

namespace UnionFind

/-- `_UnionFind()`. -/
def new : UnionFind κ where
  parent := id
  size := fun _ => 1
  bound := 1
  size_pos := fun _ => Nat.one_pos
  size_le := fun _ => le_refl 1
  size_lt := fun _ h => absurd rfl h

/-! ## Roots -/

/-- Where the links lead. -/
def root (uf : UnionFind κ) (x : κ) : κ := uf.parent^[uf.bound] x

omit [DecidableEq κ] in
/-- Until the links end, every step makes the size larger. -/
theorem size_iterate (uf : UnionFind κ) (n : Nat) (x : κ) :
    uf.parent (uf.parent^[n] x) = uf.parent^[n] x ∨ n < uf.size (uf.parent^[n] x) := by
  induction n with
  | zero => exact Or.inr (uf.size_pos x)
  | succ n ih =>
    rw [Function.iterate_succ_apply']
    rcases ih with ih | ih
    · rw [ih]
      exact Or.inl ih
    · by_cases hroot : uf.parent (uf.parent^[n] x) = uf.parent^[n] x
      · rw [hroot]
        exact Or.inl hroot
      · have := uf.size_lt _ hroot
        exact Or.inr (by omega)

omit [DecidableEq κ] in
theorem parent_root (uf : UnionFind κ) (x : κ) : uf.parent (uf.root x) = uf.root x := by
  rcases uf.size_iterate uf.bound x with h | h
  · exact h
  · have := uf.size_le (uf.parent^[uf.bound] x)
    omega

omit [DecidableEq κ] in
/-- What the links keep and a root keeps is what the root says. -/
theorem eq_root (uf : UnionFind κ) {f : κ → κ} (hf : ∀ x, f (uf.parent x) = f x)
    (hroot : ∀ x, uf.parent x = x → f x = x) (x : κ) : f x = uf.root x := by
  have hiter : ∀ n, f (uf.parent^[n] x) = f x := by
    intro n
    induction n with
    | zero => rfl
    | succ n ih => rw [Function.iterate_succ_apply', hf, ih]
  rw [← hiter uf.bound]
  exact hroot _ (uf.parent_root x)

omit [DecidableEq κ] in
theorem root_of_parent_eq {uf : UnionFind κ} {x : κ} (h : uf.parent x = x) : uf.root x = x :=
  Function.iterate_fixed h uf.bound

omit [DecidableEq κ] in
theorem root_parent (uf : UnionFind κ) (x : κ) : uf.root (uf.parent x) = uf.root x := by
  unfold root
  rw [← Function.iterate_succ_apply, Function.iterate_succ_apply']
  exact uf.parent_root x

omit [DecidableEq κ] in
theorem root_root (uf : UnionFind κ) (x : κ) : uf.root (uf.root x) = uf.root x :=
  root_of_parent_eq (uf.parent_root x)

/-! ## Find -/

/-- `parent[x] = parent[parent[x]]`. -/
def halve (uf : UnionFind κ) (x : κ) : UnionFind κ where
  parent := Function.update uf.parent x (uf.parent (uf.parent x))
  size := uf.size
  bound := uf.bound
  size_pos := uf.size_pos
  size_le := uf.size_le
  size_lt := by
    intro y hy
    by_cases hyx : y = x
    · subst hyx
      rw [Function.update_self] at hy ⊢
      by_cases h1 : uf.parent y = y
      · exact absurd (by rw [h1, h1]) hy
      · have hlt := uf.size_lt y h1
        by_cases h2 : uf.parent (uf.parent y) = uf.parent y
        · rw [h2]
          exact hlt
        · exact lt_trans hlt (uf.size_lt _ h2)
    · rw [Function.update_of_ne hyx] at hy ⊢
      exact uf.size_lt y hy

theorem root_halve (uf : UnionFind κ) (x : κ) : (uf.halve x).root = uf.root := by
  funext z
  symm
  refine eq_root (uf.halve x) (f := uf.root) (fun y => ?_) (fun y hy => ?_) z
  · show uf.root (Function.update uf.parent x _ y) = uf.root y
    by_cases hyx : y = x
    · rw [hyx, Function.update_self, root_parent, root_parent]
    · rw [Function.update_of_ne hyx, root_parent]
  · change Function.update uf.parent x _ y = y at hy
    by_cases hyx : y = x
    · subst hyx
      rw [Function.update_self] at hy
      by_cases h1 : uf.parent y = y
      · exact root_of_parent_eq h1
      · have hlt := uf.size_lt y h1
        by_cases h2 : uf.parent (uf.parent y) = uf.parent y
        · exact absurd (h2.symm.trans hy) h1
        · have hlt2 := uf.size_lt _ h2
          rw [hy] at hlt2
          omega
    · rw [Function.update_of_ne hyx] at hy
      exact root_of_parent_eq hy

/-- One turn of `while parent[x] != x`. -/
def findTurn (s : UnionFind κ × κ) : (UnionFind κ × κ) ⊕ (UnionFind κ × κ) :=
  if s.1.parent s.2 = s.2 then .inl s
  else .inr (s.1.halve s.2, s.1.parent (s.1.parent s.2))

theorem findTurn_lt (s s' : UnionFind κ × κ) (h : findTurn s = .inr s') :
    s'.1.bound - s'.1.size s'.2 < s.1.bound - s.1.size s.2 := by
  unfold findTurn at h
  split at h
  · cases h
  · next hroot =>
    obtain rfl := Sum.inr.inj h
    show s.1.bound - s.1.size (s.1.parent (s.1.parent s.2)) < _
    have hlt := s.1.size_lt s.2 hroot
    have hle := s.1.size_le (s.1.parent s.2)
    have hup : s.1.size (s.1.parent s.2) ≤ s.1.size (s.1.parent (s.1.parent s.2)) := by
      by_cases h2 : s.1.parent (s.1.parent s.2) = s.1.parent s.2
      · rw [h2]
      · exact (s.1.size_lt _ h2).le
    omega

/-- `find(x)`: the links afterwards, and the root. -/
def find (uf : UnionFind κ) (x : κ) : UnionFind κ × κ :=
  runTotal findTurn (fun s => s.1.bound - s.1.size s.2) findTurn_lt (uf, x)

/-- `find` answers with the root and changes no root and no size. -/
theorem find_spec (uf : UnionFind κ) (x : κ) :
    (uf.find x).2 = uf.root x ∧ (uf.find x).1.root = uf.root ∧
      (uf.find x).1.size = uf.size := by
  have hturn : ∀ s s' : UnionFind κ × κ,
      (s.1.root = uf.root ∧ uf.root s.2 = uf.root x ∧ s.1.size = uf.size) →
      findTurn s = .inr s' →
      (s'.1.root = uf.root ∧ uf.root s'.2 = uf.root x ∧ s'.1.size = uf.size) := by
    intro s s' hs h
    obtain ⟨hroot, hx, hsize⟩ := hs
    unfold findTurn at h
    split at h
    · cases h
    · obtain rfl := Sum.inr.inj h
      refine ⟨(root_halve s.1 s.2).trans hroot, ?_, hsize⟩
      show uf.root (s.1.parent (s.1.parent s.2)) = uf.root x
      rw [← hroot, root_parent, root_parent, hroot, hx]
  have hyields : Yields findTurn (uf, x) (uf.find x) :=
    yields_runTotal findTurn _ findTurn_lt (uf, x)
  obtain ⟨s, ⟨hroot, hx, hsize⟩, hexit⟩ := exit_of_yields hturn ⟨rfl, rfl, rfl⟩ hyields
  unfold findTurn at hexit
  split at hexit
  · next hfix =>
    rw [← Sum.inl.inj hexit]
    refine ⟨?_, hroot, hsize⟩
    rw [← hx, ← hroot, root_of_parent_eq hfix]
  · cases hexit

/-! ## Union -/

/-- `parent[rb] = ra; size[ra] += size[rb]`, for roots with `size[rb] ≤ size[ra]`. -/
def attach (uf : UnionFind κ) (ra rb : κ) (hne : ra ≠ rb) (hra : uf.parent ra = ra)
    (hle : uf.size rb ≤ uf.size ra) : UnionFind κ where
  parent := Function.update uf.parent rb ra
  size := Function.update uf.size ra (uf.size ra + uf.size rb)
  bound := uf.bound + uf.bound
  size_pos := by
    intro x
    by_cases hx : x = ra
    · rw [hx, Function.update_self]
      have := uf.size_pos ra
      omega
    · rw [Function.update_of_ne hx]
      exact uf.size_pos x
  size_le := by
    intro x
    by_cases hx : x = ra
    · rw [hx, Function.update_self]
      have := uf.size_le ra
      have := uf.size_le rb
      omega
    · rw [Function.update_of_ne hx]
      have := uf.size_le x
      omega
  size_lt := by
    intro x hx
    have hpos := uf.size_pos rb
    have hup : ∀ y, uf.size y ≤ Function.update uf.size ra (uf.size ra + uf.size rb) y := by
      intro y
      by_cases hy : y = ra
      · rw [hy, Function.update_self]
        omega
      · rw [Function.update_of_ne hy]
    by_cases hxb : x = rb
    · rw [hxb, Function.update_self, Function.update_self, Function.update_of_ne hne.symm]
      have := uf.size_pos ra
      omega
    · rw [Function.update_of_ne hxb] at hx ⊢
      have hxa : x ≠ ra := fun h => hx (by rw [h, hra])
      rw [Function.update_of_ne hxa]
      exact lt_of_lt_of_le (uf.size_lt x hx) (hup _)

theorem root_attach (uf : UnionFind κ) {ra rb : κ} (hne : ra ≠ rb) (hra : uf.parent ra = ra)
    (hrb : uf.parent rb = rb) (hle : uf.size rb ≤ uf.size ra) (x : κ) :
    (uf.attach ra rb hne hra hle).root x = if uf.root x = rb then ra else uf.root x := by
  symm
  refine eq_root (uf.attach ra rb hne hra hle)
    (f := fun x => if uf.root x = rb then ra else uf.root x) (fun y => ?_) (fun y hy => ?_) x
  · show (if uf.root (Function.update uf.parent rb ra y) = rb then ra
      else uf.root (Function.update uf.parent rb ra y)) = if uf.root y = rb then ra else uf.root y
    by_cases hy : y = rb
    · rw [hy, Function.update_self, root_of_parent_eq hra, root_of_parent_eq hrb, if_neg hne,
        if_pos rfl]
    · rw [Function.update_of_ne hy, root_parent]
  · change Function.update uf.parent rb ra y = y at hy
    by_cases hyb : y = rb
    · rw [hyb, Function.update_self] at hy
      exact absurd hy hne
    · rw [Function.update_of_ne hyb] at hy
      show (if uf.root y = rb then ra else uf.root y) = y
      rw [root_of_parent_eq hy, if_neg hyb]

/-- `union(a, b)`. -/
def union (uf : UnionFind κ) (a b : κ) : UnionFind κ :=
  let fa := uf.find a
  let fb := fa.1.find b
  if hne : fa.2 = fb.2 then fb.1
  else
    have hra : fb.1.parent fa.2 = fa.2 := by
      rw [(uf.find_spec a).1, ← (uf.find_spec a).2.1, ← (fa.1.find_spec b).2.1]
      exact fb.1.parent_root a
    have hrb : fb.1.parent fb.2 = fb.2 := by
      rw [(fa.1.find_spec b).1, ← (fa.1.find_spec b).2.1]
      exact fb.1.parent_root b
    if hlt : fb.1.size fa.2 < fb.1.size fb.2 then
      fb.1.attach fb.2 fa.2 (Ne.symm hne) hrb hlt.le
    else fb.1.attach fa.2 fb.2 hne hra (not_lt.mp hlt)

/-- Two keys are in one set. -/
def Same (uf : UnionFind κ) (x y : κ) : Prop := uf.root x = uf.root y

/-- Two values after `q` was renamed to `p`. -/
theorem rename_eq_iff {p q x y : κ} :
    (if x = q then p else x) = (if y = q then p else y) ↔
      x = y ∨ (x = p ∧ y = q) ∨ (x = q ∧ y = p) := by
  by_cases hx : x = q
  · rw [if_pos hx, hx]
    by_cases hy : y = q
    · rw [if_pos hy, hy]
      simp
    · rw [if_neg hy]
      constructor
      · exact fun h => Or.inr (Or.inr ⟨rfl, h.symm⟩)
      · rintro (h | ⟨-, h⟩ | ⟨-, h⟩)
        · exact absurd h.symm hy
        · exact absurd h hy
        · exact h.symm
  · rw [if_neg hx]
    by_cases hy : y = q
    · rw [if_pos hy, hy]
      constructor
      · exact fun h => Or.inr (Or.inl ⟨h, rfl⟩)
      · rintro (h | ⟨h, -⟩ | ⟨h, -⟩)
        · exact absurd h hx
        · exact h
        · exact absurd h hx
    · rw [if_neg hy]
      constructor
      · exact Or.inl
      · rintro (h | ⟨-, h⟩ | ⟨h, -⟩)
        · exact h
        · exact absurd h hy
        · exact absurd h hx

/-- A union puts the two sets together and leaves the others alone. -/
theorem same_union (uf : UnionFind κ) (a b x y : κ) :
    (uf.union a b).Same x y ↔ uf.Same x y ∨ (uf.Same x a ∧ uf.Same y b) ∨
      (uf.Same x b ∧ uf.Same y a) := by
  obtain ⟨hfa, hroot1, -⟩ := uf.find_spec a
  obtain ⟨hfb, hroot2, -⟩ := (uf.find a).1.find_spec b
  rw [hroot1] at hfb hroot2
  unfold Same union
  simp only
  split
  · next heq =>
    rw [hfa, hfb] at heq
    rw [hroot2, ← heq]
    constructor
    · exact Or.inl
    · rintro (h | ⟨hx, hy⟩ | ⟨hx, hy⟩)
      · exact h
      · exact hx.trans hy.symm
      · exact hx.trans hy.symm
  · have hra : ((uf.find a).1.find b).1.parent (uf.find a).2 = (uf.find a).2 := by
      rw [hfa, ← hroot2]
      exact parent_root _ a
    have hrb : ((uf.find a).1.find b).1.parent ((uf.find a).1.find b).2 =
        ((uf.find a).1.find b).2 := by
      rw [hfb, ← hroot2]
      exact parent_root _ b
    split
    · rw [root_attach _ _ hrb hra, root_attach _ _ hrb hra, hroot2, hfa, hfb,
        rename_eq_iff, or_comm (a := uf.root x = uf.root b ∧ _)]
    · rw [root_attach _ _ hra hrb, root_attach _ _ hra hrb, hroot2, hfa, hfb,
        rename_eq_iff]

/-! ## What a series of unions joins -/

omit [DecidableEq κ] in
/-- What every link keeps is kept along a connection. -/
theorem eqvGen_keeps {r : κ → κ → Prop} {P : κ → Prop} (h : ∀ x y, r x y → (P x ↔ P y)) {x y : κ}
    (hxy : Relation.EqvGen r x y) : P x ↔ P y := by
  induction hxy with
  | rel x y hr => exact h x y hr
  | refl => exact Iff.rfl
  | symm _ _ _ ih => exact ih.symm
  | trans _ _ _ _ _ ih1 ih2 => exact ih1.trans ih2

/-- The sets are the connected parts of the relation. -/
def Joins (uf : UnionFind κ) (r : κ → κ → Prop) : Prop :=
  ∀ x y, uf.Same x y ↔ Relation.EqvGen r x y

omit [DecidableEq κ] in
theorem joins_new : (new : UnionFind κ).Joins fun _ _ => False := by
  intro x y
  constructor
  · intro h
    have hxy : x = y := h
    rw [hxy]
    exact Relation.EqvGen.refl y
  · intro h
    induction h with
    | rel _ _ h => exact h.elim
    | refl => rfl
    | symm _ _ _ ih => exact ih.symm
    | trans _ _ _ _ _ ih1 ih2 => exact ih1.trans ih2

theorem Joins.find {uf : UnionFind κ} {r : κ → κ → Prop} (h : uf.Joins r) (a : κ) :
    (uf.find a).1.Joins r := by
  intro x y
  rw [← h x y]
  unfold Same
  rw [(uf.find_spec a).2.1]

theorem Joins.union {uf : UnionFind κ} {r : κ → κ → Prop} (h : uf.Joins r) (a b : κ) :
    (uf.union a b).Joins fun x y => r x y ∨ (x = a ∧ y = b) := by
  have hlift : ∀ {x y}, uf.Same x y →
      Relation.EqvGen (fun x y => r x y ∨ (x = a ∧ y = b)) x y :=
    fun hxy => Relation.EqvGen.mono (fun _ _ => Or.inl) _ _ ((h _ _).mp hxy)
  have hab : Relation.EqvGen (fun x y => r x y ∨ (x = a ∧ y = b)) a b :=
    Relation.EqvGen.rel _ _ (Or.inr ⟨rfl, rfl⟩)
  intro x y
  constructor
  · intro hxy
    rcases (uf.same_union a b x y).mp hxy with hxy | ⟨hxa, hyb⟩ | ⟨hxb, hya⟩
    · exact hlift hxy
    · exact ((hlift hxa).trans _ _ _ hab).trans _ _ _ ((hlift hyb).symm _ _)
    · exact ((hlift hxb).trans _ _ _ (hab.symm _ _)).trans _ _ _ ((hlift hya).symm _ _)
  · intro hxy
    induction hxy with
    | rel x y hr =>
      rcases hr with hr | ⟨rfl, rfl⟩
      · exact (uf.same_union a b x y).mpr (Or.inl ((h x y).mpr (Relation.EqvGen.rel _ _ hr)))
      · exact (uf.same_union x y x y).mpr (Or.inr (Or.inl ⟨rfl, rfl⟩))
    | refl => rfl
    | symm _ _ _ ih => exact ih.symm
    | trans _ _ _ _ _ ih1 ih2 => exact ih1.trans ih2

/-- `for a, b in pairs: union(a, b)`. -/
def unionAll (uf : UnionFind κ) (pairs : List (κ × κ)) : UnionFind κ :=
  pairs.foldl (fun uf p => uf.union p.1 p.2) uf

theorem Joins.unionAll {uf : UnionFind κ} {r : κ → κ → Prop} (h : uf.Joins r)
    (pairs : List (κ × κ)) : (uf.unionAll pairs).Joins fun x y => r x y ∨ (x, y) ∈ pairs := by
  induction pairs generalizing uf r with
  | nil =>
    have hr : (fun x y => r x y ∨ (x, y) ∈ ([] : List (κ × κ))) = r := by
      funext x y
      simp
    rw [hr]
    exact h
  | cons p pairs ih =>
    have hr : (fun x y => r x y ∨ (x, y) ∈ p :: pairs) =
        fun x y => (r x y ∨ (x = p.1 ∧ y = p.2)) ∨ (x, y) ∈ pairs := by
      funext x y
      rw [List.mem_cons, Prod.ext_iff, or_assoc]
    rw [hr]
    exact ih (h.union p.1 p.2)

end UnionFind

end Lib
