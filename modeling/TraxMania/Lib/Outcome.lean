import Mathlib.Data.List.Basic
import Mathlib.Logic.Basic

/-
  Programs that return a result or an error: a run that succeeded, taken apart at its binds.

  Nothing here is about a program in particular.
-/

namespace Lib.Outcome

universe u v

variable {ε : Type u} {α β : Type v}

theorem bind_eq_ok {x : Except ε α} {f : α → Except ε β} {b : β} :
    (x >>= f) = .ok b ↔ ∃ a, x = .ok a ∧ f a = .ok b := by
  cases x with
  | error e =>
    constructor
    · intro h
      cases h
    · rintro ⟨a, ha, -⟩
      cases ha
  | ok a =>
    constructor
    · intro h
      exact ⟨a, rfl, h⟩
    · rintro ⟨a', ha, h⟩
      obtain rfl := Except.ok.inj ha
      exact h

theorem ok_bind (a : α) (f : α → Except ε β) : ((.ok a : Except ε α) >>= f) = f a := rfl

/-! ## What a program may raise -/

section Within

variable {E E' : ε → Prop} {x : Except ε α} {f : α → Except ε β}

/-- The program returns, or raises one of the exceptions in `E`. -/
def Within (E : ε → Prop) (x : Except ε α) : Prop := ∀ e, x = .error e → E e

@[simp] theorem within_ok (a : α) : Within E (.ok a : Except ε α) := fun _ h => nomatch h

@[simp] theorem within_pure (a : α) : Within E (pure a : Except ε α) := within_ok a

@[simp] theorem within_error {e : ε} : Within E (.error e : Except ε α) ↔ E e := by
  constructor
  · intro h
    exact h e rfl
  · intro he e' h
    rwa [← Except.error.inj h]

theorem within_bind : Within E (x >>= f) ↔ Within E x ∧ ∀ a, x = .ok a → Within E (f a) := by
  cases x with
  | error e =>
    show Within E (.error e : Except ε β) ↔ _
    simp
  | ok a =>
    show Within E (f a) ↔ _
    simp

/-- A check that raises `e` where `p` does not hold. -/
def require (p : Prop) [Decidable p] (e : ε) : Except ε Unit := if p then .ok () else .error e

theorem within_require {p : Prop} [Decidable p] {e : ε} : Within E (require p e) ↔ (¬ p → E e) := by
  unfold require
  split
  · next h => simp [h]
  · next h => simp [h]

theorem require_eq_ok {p : Prop} [Decidable p] {e : ε} {u : Unit} : require p e = .ok u ↔ p := by
  unfold require
  split
  · next h => simp [h]
  · next h => simp [h]

end Within

/-! ## Programs that return -/

section Returns

variable {x : Except ε α} {f : α → Except ε β}

/-- The program returns. -/
def Returns (x : Except ε α) : Prop := ∃ a, x = .ok a

@[simp] theorem returns_ok (a : α) : Returns (.ok a : Except ε α) := ⟨a, rfl⟩

@[simp] theorem returns_pure (a : α) : Returns (pure a : Except ε α) := ⟨a, rfl⟩

@[simp] theorem not_returns_error (e : ε) : ¬ Returns (.error e : Except ε α) := fun ⟨_, h⟩ => nomatch h

theorem returns_require {p : Prop} [Decidable p] {e : ε} : Returns (require p e) ↔ p := by
  constructor
  · rintro ⟨u, hu⟩
    exact require_eq_ok.mp hu
  · intro h
    exact ⟨(), require_eq_ok.mpr h⟩

theorem returns_bind_iff : Returns (x >>= f) ↔ ∃ a, x = .ok a ∧ Returns (f a) := by
  constructor
  · rintro ⟨b, hb⟩
    obtain ⟨a, ha, hf⟩ := bind_eq_ok.mp hb
    exact ⟨a, ha, b, hf⟩
  · rintro ⟨a, ha, b, hf⟩
    exact ⟨b, bind_eq_ok.mpr ⟨a, ha, hf⟩⟩

/-- One program after the other, when how the second goes is the same for all results. -/
theorem returns_bind {p : Prop} (h : ∀ a, x = .ok a → (Returns (f a) ↔ p)) :
    Returns (x >>= f) ↔ Returns x ∧ p := by
  rw [returns_bind_iff]
  constructor
  · rintro ⟨a, ha, hf⟩
    exact ⟨⟨a, ha⟩, (h a ha).mp hf⟩
  · rintro ⟨⟨a, ha⟩, hp⟩
    exact ⟨a, ha, (h a ha).mpr hp⟩

/-- What has to hold for every result of `x` has to hold when `x` returns, if it is the same for
all results. -/
theorem forall_congr_returns {P : α → Prop} {p : Prop} (h : ∀ a, P a ↔ p) :
    (∀ a, x = .ok a → P a) ↔ (Returns x → p) := by
  constructor
  · rintro hall ⟨a, ha⟩
    exact (h a).mp (hall a ha)
  · intro hp a ha
    exact (h a).mpr (hp ⟨a, ha⟩)

end Returns

end Lib.Outcome

/-
  Loops `for i, x in enumerate(xs)` that append one result for each entry and return at the first
  entry that gives an error.

  Nothing here is about a program in particular.
-/

namespace Lib.Enumerate

variable {α β ε : Type*}

/-- The loop from the index `i` on. -/
def collect (f : Nat → α → Except ε β) (i : Nat) : List α → Except ε (List β)
  | [] => .ok []
  | x :: xs =>
    match f i x with
    | .error e => .error e
    | .ok y =>
      match collect f (i + 1) xs with
      | .error e => .error e
      | .ok ys => .ok (y :: ys)

theorem collect_cons_error {f : Nat → α → Except ε β} {i : Nat} {x : α} {e : ε}
    (h : f i x = .error e) (xs : List α) : collect f i (x :: xs) = .error e := by
  simp only [collect, h]

theorem collect_cons_ok {f : Nat → α → Except ε β} {i : Nat} {x : α} {y : β} (h : f i x = .ok y)
    (xs : List α) : collect f i (x :: xs) = (collect f (i + 1) xs).map (y :: ·) := by
  simp only [collect, h]
  cases collect f (i + 1) xs <;> rfl

theorem collect_nil_eq_ok {f : Nat → α → Except ε β} {i : Nat} {ys : List β} :
    collect f i [] = .ok ys ↔ ys = [] := by
  rw [collect, Except.ok.injEq]
  exact eq_comm

theorem collect_cons_eq_ok {f : Nat → α → Except ε β} {i : Nat} {x : α} {xs : List α}
    {ys : List β} : collect f i (x :: xs) = .ok ys ↔
      ∃ y zs, f i x = .ok y ∧ collect f (i + 1) xs = .ok zs ∧ ys = y :: zs := by
  cases hx : f i x with
  | error e =>
    rw [collect_cons_error hx]
    apply iff_of_false
    · exact nofun
    · exact fun ⟨_, _, h, _⟩ => nomatch h
  | ok y =>
    rw [collect_cons_ok hx]
    cases hxs : collect f (i + 1) xs with
    | error e =>
      apply iff_of_false
      · exact nofun
      · exact fun ⟨_, _, _, h, _⟩ => nomatch h
    | ok zs =>
      constructor
      · intro h
        exact ⟨y, zs, rfl, rfl, (Except.ok.inj h).symm⟩
      · rintro ⟨y', zs', hy, hzs, rfl⟩
        rw [← Except.ok.inj hy, ← Except.ok.inj hzs]
        rfl

theorem index_succ (k i : Nat) : k + (i + 1) = k + 1 + i := by
  omega

/-- The loop ends with the error of the first entry that has one. -/
theorem collect_eq_error {f : Nat → α → Except ε β} {i k : Nat} {xs : List α} {x : α} {e : ε}
    (hx : xs[i]? = some x) (he : f (k + i) x = .error e)
    (hbefore : ∀ j < i, ∀ z, xs[j]? = some z → ∃ y, f (k + j) z = .ok y) :
    collect f k xs = .error e := by
  induction xs generalizing i k with
  | nil => simp at hx
  | cons a xs ih =>
    cases i with
    | zero =>
      rw [List.getElem?_cons_zero, Option.some_inj] at hx
      subst hx
      exact collect_cons_error he xs
    | succ i =>
      obtain ⟨y, hy⟩ := hbefore 0 (by omega) a rfl
      rw [Nat.add_zero] at hy
      rw [List.getElem?_cons_succ] at hx
      rw [collect_cons_ok hy, ih (k := k + 1) hx (by rwa [index_succ] at he), Except.map]
      intro j hj z hz
      have hstep := hbefore (j + 1) (by omega) z (by rwa [List.getElem?_cons_succ])
      rwa [index_succ] at hstep

/-- The loop runs through when no entry has an error. -/
theorem collect_eq_ok {f : Nat → α → Except ε β} {k : Nat} {xs : List α}
    (h : ∀ i x, xs[i]? = some x → ∃ y, f (k + i) x = .ok y) : ∃ ys, collect f k xs = .ok ys := by
  induction xs generalizing k with
  | nil => exact ⟨[], rfl⟩
  | cons a xs ih =>
    obtain ⟨y, hy⟩ := h 0 a rfl
    rw [Nat.add_zero] at hy
    obtain ⟨ys, hys⟩ := ih (k := k + 1) fun i x hx => by
      have hstep := h (i + 1) x (by rwa [List.getElem?_cons_succ])
      rwa [index_succ] at hstep
    exact ⟨y :: ys, by rw [collect_cons_ok hy, hys, Except.map]⟩

/-- The results stand at the indices of their entries. -/
theorem getElem?_of_collect {f : Nat → α → Except ε β} {k : Nat} {xs : List α} {ys : List β}
    (h : collect f k xs = .ok ys) :
    ys.length = xs.length ∧ ∀ i x, xs[i]? = some x → ∃ y, ys[i]? = some y ∧ f (k + i) x = .ok y := by
  induction xs generalizing k ys with
  | nil =>
    obtain rfl : [] = ys := Except.ok.inj h
    exact ⟨rfl, fun i x hx => by simp at hx⟩
  | cons a xs ih =>
    obtain ⟨y, zs, hy, hzs, rfl⟩ := collect_cons_eq_ok.mp h
    obtain ⟨hlength, hget⟩ := ih hzs
    refine ⟨by rw [List.length_cons, List.length_cons, hlength], ?_⟩
    intro i x hx
    cases i with
    | zero =>
      rw [List.getElem?_cons_zero, Option.some_inj] at hx
      subst hx
      exact ⟨y, rfl, hy⟩
    | succ i =>
      obtain ⟨z, hz, hf⟩ := hget i x (by rwa [List.getElem?_cons_succ] at hx)
      exact ⟨z, by rwa [List.getElem?_cons_succ], by rwa [index_succ]⟩

/-- Two loops that treat every entry alike end alike. -/
theorem collect_congr {f g : Nat → α → Except ε β} {k : Nat} {xs : List α}
    (h : ∀ i, ∀ x ∈ xs, f i x = g i x) : collect f k xs = collect g k xs := by
  induction xs generalizing k with
  | nil => rfl
  | cons a xs ih =>
    rw [collect, collect, h k a (by simp), ih fun i x hx => h i x (by simp [hx])]

/-! ## What the loop may raise -/

open Lib.Outcome

theorem within_collect_cons {E : ε → Prop} {f : Nat → α → Except ε β} {k : Nat} {x : α}
    {xs : List α} : Within E (collect f k (x :: xs)) ↔
      Within E (f k x) ∧ ∀ y, f k x = .ok y → Within E (collect f (k + 1) xs) := by
  cases hx : f k x with
  | error e =>
    rw [collect_cons_error hx]
    simp
  | ok y =>
    rw [collect_cons_ok hx]
    cases hxs : collect f (k + 1) xs with
    | error e => simp [Except.map]
    | ok ys => simp [Except.map]

theorem within_collect {E : ε → Prop} {f : Nat → α → Except ε β}
    (h : ∀ i x, Within E (f i x)) (k : Nat) (xs : List α) : Within E (collect f k xs) := by
  induction xs generalizing k with
  | nil => exact within_ok []
  | cons x xs ih => exact within_collect_cons.mpr ⟨h k x, fun _ _ => ih (k + 1)⟩

/-- A loop returns when the body returns at every entry, whatever its index. -/
theorem returns_collect {f : Nat → α → Except ε β} {P : α → Prop}
    (h : ∀ i x, Returns (f i x) ↔ P x) (k : Nat) (xs : List α) :
    Returns (collect f k xs) ↔ ∀ x ∈ xs, P x := by
  constructor
  · rintro ⟨ys, hys⟩ x hx
    obtain ⟨i, hi⟩ := List.mem_iff_getElem?.mp hx
    obtain ⟨y, -, hy⟩ := (getElem?_of_collect hys).2 i x hi
    exact (h (k + i) x).mp ⟨y, hy⟩
  · intro hall
    exact collect_eq_ok fun i x hx => (h (k + i) x).mpr (hall x (List.mem_of_getElem? hx))

end Lib.Enumerate
