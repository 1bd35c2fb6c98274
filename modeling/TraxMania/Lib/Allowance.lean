import Mathlib.Algebra.BigOperators.Group.List.Basic
import Mathlib.Algebra.Order.Field.Basic
import Mathlib.Tactic.Linarith
import Mathlib.Tactic.Ring
import TraxMania.Lib.Transition

/-
  An account that fills at a constant rate up to a cap, and is drawn from at visits: what can be
  drawn in any window of time, and what a visitor finds who has waited.

  Nothing here is about a program in particular.
-/

namespace Lib.Allowance

open Lib.Transition

variable {K : Type*} [Field K] [LinearOrder K]

/-- The level of an account, and when it was filled last. -/
structure Account (K : Type*) where
  level : K
  last : K

/-- A visit, and what is drawn at it. -/
structure Visit (K : Type*) where
  time : K
  drawn : K

variable (rate cap : K)

namespace Account

/-- The account after it is filled. -/
def fill (now : K) (a : Account K) : Account K :=
  if 0 < now - a.last then ⟨min cap (a.level + (now - a.last) * rate), now⟩ else a

/-- The account after a visit. -/
def visit (a : Account K) (v : Visit K) : Account K :=
  ⟨(a.fill rate cap v.time).level - v.drawn, (a.fill rate cap v.time).last⟩

/-- The clock has not gone back, and the account covers what is drawn. -/
def Covers (a : Account K) (v : Visit K) : Prop :=
  a.last ≤ v.time ∧ 0 ≤ v.drawn ∧ v.drawn ≤ (a.fill rate cap v.time).level

/-- What the account would hold at `t` without a cap and without a visit. -/
def reach (t : K) (a : Account K) : K := a.level + rate * (t - a.last)

end Account

/-- What the visits draw between `s` and `t`. -/
def drawnIn (s t : K) (visits : List (Visit K)) : K :=
  ((visits.filter fun v => s ≤ v.time ∧ v.time ≤ t).map Visit.drawn).sum

variable {rate cap} {s t : K} {a : Account K} {v : Visit K} {visits : List (Visit K)}

theorem drawnIn_cons_of_mem (hs : s ≤ v.time) (ht : v.time ≤ t) :
    drawnIn s t (v :: visits) = v.drawn + drawnIn s t visits := by
  unfold drawnIn
  rw [List.filter_cons_of_pos (by simp [hs, ht]), List.map_cons, List.sum_cons]

theorem drawnIn_cons_of_notMem (h : ¬ (s ≤ v.time ∧ v.time ≤ t)) :
    drawnIn s t (v :: visits) = drawnIn s t visits := by
  unfold drawnIn
  rw [List.filter_cons_of_neg (by simpa using h)]

theorem drawnIn_append (visits' : List (Visit K)) :
    drawnIn s t (visits ++ visits') = drawnIn s t visits + drawnIn s t visits' := by
  unfold drawnIn
  rw [List.filter_append, List.map_append, List.sum_append]

/-! ## One filling -/

variable [IsStrictOrderedRing K]

theorem fill_last {now : K} (h : a.last ≤ now) : (a.fill rate cap now).last = now := by
  unfold Account.fill
  split
  · rfl
  · next hnot =>
    have hle : now - a.last ≤ 0 := not_lt.mp hnot
    show a.last = now
    linarith

theorem fill_level {now : K} (h : a.last ≤ now) (hcap : a.level ≤ cap) :
    (a.fill rate cap now).level = min cap (a.level + (now - a.last) * rate) := by
  unfold Account.fill
  split
  · rfl
  · next hnot =>
    have hle : now - a.last ≤ 0 := not_lt.mp hnot
    have hzero : now - a.last = 0 := by linarith
    rw [hzero, zero_mul, add_zero, min_eq_right hcap]

theorem fill_level_le_cap {now : K} (h : a.last ≤ now) (hcap : a.level ≤ cap) :
    (a.fill rate cap now).level ≤ cap := by
  rw [fill_level h hcap]
  exact min_le_left _ _

/-- Two fillings are one. -/
theorem fill_fill {now now' : K} (hrate : 0 ≤ rate) (h : a.last ≤ now) (h' : now ≤ now')
    (hcap : a.level ≤ cap) :
    ((a.fill rate cap now).fill rate cap now').level = (a.fill rate cap now').level := by
  have hlast : (a.fill rate cap now).last = now := fill_last h
  have hgain : 0 ≤ (now' - now) * rate := mul_nonneg (by linarith) hrate
  rw [fill_level (by rw [hlast]; exact h') (fill_level_le_cap h hcap), hlast, fill_level h hcap,
    fill_level (le_trans h h') hcap, ← min_add_add_right, ← min_assoc,
    min_eq_left (by linarith : cap ≤ cap + (now' - now) * rate)]
  congr 1
  ring

/-! ## One visit -/

theorem visit_last (h : a.Covers rate cap v) : (a.visit rate cap v).last = v.time :=
  fill_last h.1

theorem visit_level_nonneg (h : a.Covers rate cap v) : 0 ≤ (a.visit rate cap v).level := by
  have hle := h.2.2
  show 0 ≤ (a.fill rate cap v.time).level - v.drawn
  linarith

theorem visit_level_le (h : a.Covers rate cap v) (hcap : a.level ≤ cap) :
    (a.visit rate cap v).level ≤ cap := by
  have hfill : (a.fill rate cap v.time).level ≤ cap := fill_level_le_cap h.1 hcap
  have hdrawn := h.2.1
  show (a.fill rate cap v.time).level - v.drawn ≤ cap
  linarith

/-- What a visit draws comes out of the reach of the account. -/
theorem drawn_add_reach_le (h : a.Covers rate cap v) (hcap : a.level ≤ cap) :
    v.drawn + (a.visit rate cap v).reach rate t ≤ a.reach rate t := by
  have hlevel : (a.fill rate cap v.time).level ≤ a.level + (v.time - a.last) * rate := by
    rw [fill_level h.1 hcap]
    exact min_le_right _ _
  have hsplit : rate * (t - a.last) = (v.time - a.last) * rate + rate * (t - v.time) := by ring
  unfold Account.reach
  rw [visit_last h, hsplit]
  show v.drawn + ((a.fill rate cap v.time).level - v.drawn + _) ≤ _
  linarith

/-! ## Runs -/

/-- After `t`, nothing is drawn before `t`. -/
theorem drawnIn_of_lt (hrun : Transition.Steps (Account.Covers rate cap) (Account.visit rate cap) a visits)
    (h : t < a.last) : drawnIn s t visits = 0 := by
  induction visits generalizing a with
  | nil => rfl
  | cons v visits ih =>
    obtain ⟨hv, hrest⟩ := hrun
    have hlate : t < v.time := lt_of_lt_of_le h hv.1
    rw [drawnIn_cons_of_notMem fun hin => absurd hin.2 (not_le.mpr hlate)]
    apply ih hrest
    rw [visit_last hv]
    exact hlate

theorem drawnIn_le_reach (hrate : 0 ≤ rate) (hlevel : 0 ≤ a.level) (hcap : a.level ≤ cap)
    (hlast : a.last ≤ t)
    (hrun : Transition.Steps (Account.Covers rate cap) (Account.visit rate cap) a visits) :
    drawnIn s t visits ≤ a.reach rate t := by
  induction visits generalizing a with
  | nil =>
    have hgain : 0 ≤ rate * (t - a.last) := mul_nonneg hrate (by linarith)
    show 0 ≤ a.level + rate * (t - a.last)
    linarith
  | cons v visits ih =>
    obtain ⟨hv, hrest⟩ := hrun
    have hspent : v.drawn + (a.visit rate cap v).reach rate t ≤ a.reach rate t :=
      drawn_add_reach_le hv hcap
    have hdrawn := hv.2.1
    by_cases ht : v.time ≤ t
    · have hle := ih (visit_level_nonneg hv) (visit_level_le hv hcap)
        (by rw [visit_last hv]; exact ht) hrest
      by_cases hs : s ≤ v.time
      · rw [drawnIn_cons_of_mem hs ht]
        linarith
      · rw [drawnIn_cons_of_notMem fun hin => hs hin.1]
        linarith
    · have hgain : 0 ≤ rate * (t - a.last) := mul_nonneg hrate (by linarith)
      rw [drawnIn_cons_of_notMem fun hin => ht hin.2, drawnIn_of_lt hrest]
      · show 0 ≤ a.level + rate * (t - a.last)
        linarith
      · rw [visit_last hv]
        exact not_le.mp ht

/-- In any window of time the visits draw at most the cap and what flows in during the window. -/
theorem drawnIn_le (hrate : 0 ≤ rate) (hcap : a.level ≤ cap) (hcap0 : 0 ≤ cap) (hst : s ≤ t)
    (hrun : Transition.Steps (Account.Covers rate cap) (Account.visit rate cap) a visits) :
    drawnIn s t visits ≤ cap + rate * (t - s) := by
  have hwindow : 0 ≤ rate * (t - s) := mul_nonneg hrate (by linarith)
  induction visits generalizing a with
  | nil =>
    show 0 ≤ cap + rate * (t - s)
    linarith
  | cons v visits ih =>
    obtain ⟨hv, hrest⟩ := hrun
    by_cases hin : s ≤ v.time ∧ v.time ≤ t
    · obtain ⟨hs, ht⟩ := hin
      have hlate : drawnIn s t visits ≤ (a.visit rate cap v).reach rate t := by
        apply drawnIn_le_reach hrate (visit_level_nonneg hv) (visit_level_le hv hcap) _ hrest
        rw [visit_last hv]
        exact ht
      have hfill : (a.fill rate cap v.time).level ≤ cap := fill_level_le_cap hv.1 hcap
      have hflow : rate * (t - v.time) ≤ rate * (t - s) :=
        mul_le_mul_of_nonneg_left (by linarith) hrate
      have hreach : (a.visit rate cap v).reach rate t =
          (a.fill rate cap v.time).level - v.drawn + rate * (t - v.time) := by
        unfold Account.reach
        rw [visit_last hv]
        rfl
      rw [drawnIn_cons_of_mem hs ht]
      linarith
    · rw [drawnIn_cons_of_notMem hin]
      exact ih (visit_level_le hv hcap) hrest

/-- Visits that draw nothing do not change what a later visitor finds. -/
theorem fill_after_of_drawn_zero {now : K} (hrate : 0 ≤ rate) (hcap : a.level ≤ cap)
    (hrun : Transition.Steps (Account.Covers rate cap) (Account.visit rate cap) a visits)
    (hzero : ∀ v ∈ visits, v.drawn = 0) (hnow : (after (Account.visit rate cap) a visits).last ≤ now) :
    ((after (Account.visit rate cap) a visits).fill rate cap now).level =
      (a.fill rate cap now).level := by
  induction visits generalizing a with
  | nil => rfl
  | cons v visits ih =>
    obtain ⟨hv, hrest⟩ := hrun
    have hlast : (a.visit rate cap v).last ≤ (after (Account.visit rate cap) (a.visit rate cap v)
        visits).last := by
      refine invariant_after (I := fun b => (a.visit rate cap v).last ≤ b.last) ?_ (le_refl _) hrest
      intro b w hb hw
      rw [visit_last hw]
      exact le_trans hb hw.1
    have hsame : a.visit rate cap v = a.fill rate cap v.time := by
      unfold Account.visit
      rw [hzero v List.mem_cons_self, sub_zero]
    rw [after_cons] at hnow ⊢
    rw [ih (visit_level_le hv hcap) hrest (fun w hw => hzero w (List.mem_cons_of_mem _ hw)) hnow,
      hsame]
    apply fill_fill hrate hv.1 _ hcap
    rw [← visit_last hv]
    exact le_trans hlast hnow

end Lib.Allowance
