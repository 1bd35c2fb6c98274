import Mathlib.Logic.Function.Iterate

/-
  Transaction functions that a driver runs again when an attempt fails for a passing reason. An
  attempt may have taken effect although its answer was lost, so that a transaction that is run
  again can take effect several times.

  Nothing here is about a program in particular.
-/

namespace Lib

variable {σ α : Type*}

/-- What becomes of a transaction. -/
inductive Delivery
  /-- It takes effect and is answered. -/
  | delivered
  /-- An attempt fails, with its effect if `applied`, and the function is run again. -/
  | retried (applied : Bool) (rest : Delivery)
  /-- An attempt fails, with its effect if `applied`, and the error is raised. -/
  | raised (applied : Bool)
  deriving DecidableEq

namespace Delivery

/-- How often the transaction takes effect. -/
def times : Delivery → Nat
  | delivered => 1
  | retried applied rest => rest.times + applied.toNat
  | raised applied => applied.toNat

/-- The driver returns. -/
def answered : Delivery → Bool
  | delivered => true
  | retried _ rest => rest.answered
  | raised _ => false

/-- The transaction takes effect once, in the attempt that is answered. -/
def clean : Delivery → Bool
  | delivered => true
  | retried applied rest => !applied && rest.clean
  | raised _ => false

/-- Runs the transaction function; `none` when the driver raises. -/
def execute (f : σ → α × σ) : Delivery → σ → Option α × σ
  | delivered, s => (some (f s).1, (f s).2)
  | retried applied rest, s => execute f rest (if applied then (f s).2 else s)
  | raised applied, s => (none, if applied then (f s).2 else s)

theorem execute_state (f : σ → α × σ) (d : Delivery) (s : σ) :
    (d.execute f s).2 = (fun s => (f s).2)^[d.times] s := by
  induction d generalizing s with
  | delivered => rfl
  | retried applied rest ih =>
    rw [execute, ih]
    cases applied <;> rfl
  | raised applied => cases applied <;> rfl

theorem execute_isSome (f : σ → α × σ) (d : Delivery) (s : σ) :
    (d.execute f s).1.isSome = d.answered := by
  induction d generalizing s with
  | delivered => rfl
  | retried applied rest ih => exact ih _
  | raised applied => rfl

theorem answered_of_clean {d : Delivery} (h : d.clean) : d.answered := by
  induction d with
  | delivered => rfl
  | retried applied rest ih =>
    rw [clean, Bool.and_eq_true] at h
    exact ih h.2
  | raised applied => exact absurd h (by simp [clean])

theorem times_pos_of_answered {d : Delivery} (h : d.answered) : 0 < d.times := by
  induction d with
  | delivered => decide
  | retried applied rest ih =>
    have hrest := ih h
    rw [times]
    omega
  | raised applied => exact absurd h (by simp [answered])

/-! ## Claims -/

/-- A claim that has been made stays as it is. -/
theorem execute_claimed {f : σ → Bool × σ} {s : σ} (hs : f s = (false, s)) (d : Delivery) :
    (d.execute f s).2 = s ∧ (d.execute f s).1 ≠ some true := by
  induction d with
  | delivered => simp [execute, hs]
  | retried applied rest ih => cases applied <;> simpa [execute, hs] using ih
  | raised applied => cases applied <;> simp [execute, hs]

/-- A claim that can be made only once: it is made when the transaction takes effect at all, and
the caller learns that it has made it when the transaction is clean. -/
theorem execute_claim {f : σ → Bool × σ} {s s' : σ} (hs : f s = (true, s'))
    (hs' : f s' = (false, s')) (d : Delivery) :
    (d.execute f s).2 = (if d.times = 0 then s else s') ∧
      ((d.execute f s).1 = some true ↔ d.clean = true) := by
  induction d with
  | delivered => simp [execute, hs, times, clean]
  | retried applied rest ih =>
    cases applied with
    | false =>
      rw [show (retried false rest).times = rest.times from rfl]
      simpa [execute, clean] using ih
    | true =>
      have hclaimed := execute_claimed hs' rest
      simp [execute, hs, times, clean, hclaimed.1, hclaimed.2]
  | raised applied => cases applied <;> simp [execute, hs, times, clean]

end Delivery

end Lib
