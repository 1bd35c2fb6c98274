import Mathlib.Data.List.Infix
import Mathlib.Order.Basic

/-
  Systems that take one step after another: `step s i` is the state after the input `i`. An
  invariant of the single steps is one of every run; so is one that grows along a preorder.

  Such an order is that of write-once ledgers: a partial map in which an entry, once written, is
  never changed or taken out. `l ≤ l'` says that `l'` holds everything `l` holds.

  Nothing here is about a program in particular.
-/

namespace Lib.Transition

variable {σ ι : Type*}

/-- The state after the inputs, in their order. -/
def after (step : σ → ι → σ) (s : σ) (ins : List ι) : σ := ins.foldl step s

@[simp] theorem after_nil (step : σ → ι → σ) (s : σ) : after step s [] = s := rfl

@[simp] theorem after_cons (step : σ → ι → σ) (s : σ) (i : ι) (ins : List ι) :
    after step s (i :: ins) = after step (step s i) ins := rfl

theorem after_append (step : σ → ι → σ) (s : σ) (ins ins' : List ι) :
    after step s (ins ++ ins') = after step (after step s ins) ins' :=
  List.foldl_append

/-- Every step of the run meets the condition. -/
def Steps (cond : σ → ι → Prop) (step : σ → ι → σ) : σ → List ι → Prop
  | _, [] => True
  | s, i :: ins => cond s i ∧ Steps cond step (step s i) ins

instance decidableSteps (cond : σ → ι → Prop) [∀ s i, Decidable (cond s i)] (step : σ → ι → σ) :
    (s : σ) → (ins : List ι) → Decidable (Steps cond step s ins)
  | _, [] => .isTrue trivial
  | s, i :: ins =>
    have := decidableSteps cond step (step s i) ins
    inferInstanceAs (Decidable (cond s i ∧ Steps cond step (step s i) ins))

variable {step : σ → ι → σ} {cond : σ → ι → Prop}

theorem steps_append {s : σ} {ins ins' : List ι} :
    Steps cond step s (ins ++ ins') ↔
      Steps cond step s ins ∧ Steps cond step (after step s ins) ins' := by
  induction ins generalizing s with
  | nil => simp [Steps]
  | cons i ins ih => simp only [List.cons_append, Steps, after_cons, ih, and_assoc]

/-- An invariant of the steps holds after a run. -/
theorem invariant_after {I : σ → Prop} (hstep : ∀ s i, I s → cond s i → I (step s i)) {s : σ}
    {ins : List ι} (hs : I s) (h : Steps cond step s ins) : I (after step s ins) := by
  induction ins generalizing s with
  | nil => exact hs
  | cons i ins ih => exact ih (hstep s i hs h.1) h.2

/-- An invariant whose index grows with the steps has grown after a run. -/
theorem growing_after {A : Type*} [Preorder A] {I : A → σ → Prop}
    (hstep : ∀ a s i, I a s → cond s i → ∃ a', a ≤ a' ∧ I a' (step s i)) {a : A} {s : σ}
    {ins : List ι} (hs : I a s) (h : Steps cond step s ins) :
    ∃ a', a ≤ a' ∧ I a' (after step s ins) := by
  induction ins generalizing a s with
  | nil => exact ⟨a, le_refl a, hs⟩
  | cons i ins ih =>
    obtain ⟨b, hab, hb⟩ := hstep a s i hs h.1
    obtain ⟨c, hbc, hc⟩ := ih hb h.2
    exact ⟨c, le_trans hab hbc, hc⟩

/-- Two conditions that agree where an invariant of the steps holds agree on runs. -/
theorem steps_congr {cond' : σ → ι → Prop} {I : σ → Prop}
    (hstep : ∀ s i, I s → cond s i → I (step s i)) (h : ∀ s i, I s → (cond s i ↔ cond' s i))
    {s : σ} (hs : I s) (ins : List ι) : Steps cond step s ins ↔ Steps cond' step s ins := by
  induction ins generalizing s with
  | nil => exact Iff.rfl
  | cons i ins ih =>
    constructor
    · rintro ⟨hi, hrest⟩
      exact ⟨(h s i hs).mp hi, (ih (hstep s i hs hi)).mp hrest⟩
    · rintro ⟨hi, hrest⟩
      have hi' := (h s i hs).mpr hi
      exact ⟨hi', (ih (hstep s i hs hi')).mpr hrest⟩

/-- A property that a step keeps exactly under a condition holds in every state of a run exactly
when all its steps meet the condition. `J` is what the steps keep in any case. -/
theorem forall_prefix_iff_steps {J P : σ → Prop} (hJ : ∀ s i, J s → J (step s i))
    (hP : ∀ s i, J s → P s → (P (step s i) ↔ cond s i)) (ins : List ι) :
    ∀ s, J s → P s →
      ((∀ before, before <+: ins → P (after step s before)) ↔ Steps cond step s ins) := by
  induction ins with
  | nil =>
    intro s _ hs
    refine iff_of_true ?_ trivial
    intro before hbefore
    rw [List.prefix_nil.mp hbefore]
    exact hs
  | cons i ins ih =>
    intro s hJs hs
    constructor
    · intro hall
      have hstep : P (step s i) := hall [i] (by simp)
      refine ⟨(hP s i hJs hs).mp hstep, (ih _ (hJ s i hJs) hstep).mp ?_⟩
      intro before hbefore
      exact hall (i :: before) (List.prefix_cons_inj i |>.mpr hbefore)
    · intro hsteps before hbefore
      have hstep : P (step s i) := (hP s i hJs hs).mpr hsteps.1
      cases before with
      | nil => exact hs
      | cons j before =>
        obtain ⟨hj, hbefore'⟩ := List.cons_prefix_cons.mp hbefore
        rw [hj]
        exact (ih _ (hJ s i hJs) hstep).mpr hsteps.2 before hbefore'

end Lib.Transition

/-! ## Ledgers -/

namespace Lib

variable {κ ν : Type*}

/-- What has been written under each key. -/
def Ledger (κ ν : Type*) := κ → Option ν

namespace Ledger

@[ext] theorem ext {l l' : Ledger κ ν} (h : ∀ k, l k = l' k) : l = l' := funext h

instance : PartialOrder (Ledger κ ν) where
  le l l' := ∀ k v, l k = some v → l' k = some v
  le_refl _ _ _ h := h
  le_trans _ _ _ h h' k v hv := h' k v (h k v hv)
  le_antisymm l l' h h' := by
    funext k
    cases hk : l k with
    | some v => exact (h k v hk).symm
    | none =>
      cases hk' : l' k with
      | none => rfl
      | some v => exact absurd (h' k v hk') (by simp [hk])

variable [DecidableEq κ]

/-- The ledger with `v` under `k`. -/
def record (l : Ledger κ ν) (k : κ) (v : ν) : Ledger κ ν :=
  fun k' => if k' = k then some v else l k'

@[simp] theorem record_self (l : Ledger κ ν) (k : κ) (v : ν) : l.record k v k = some v := by
  simp [record]

theorem record_of_ne (l : Ledger κ ν) {k k' : κ} (v : ν) (h : k' ≠ k) :
    l.record k v k' = l k' := by
  simp [record, h]

/-- Writing under a key that has nothing keeps every entry. -/
theorem le_record {l : Ledger κ ν} {k : κ} (v : ν) (h : l k = none) : l ≤ l.record k v := by
  intro k' v' hv
  have hne : k' ≠ k := by
    rintro rfl
    simp [h] at hv
  rw [record_of_ne l v hne]
  exact hv

end Ledger

end Lib
