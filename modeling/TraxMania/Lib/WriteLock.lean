import Mathlib.Order.Basic

/-
  One database behind several connections: its last committed version, and at most one open write
  transaction, whose version only its own connection sees.

  Nothing here is about a program in particular.
-/

namespace Lib

/-- The committed version, and the connection that writes with the version that it has made. -/
structure WriteLock (π δ : Type*) where
  committed : δ
  writing : Option (π × δ)

namespace WriteLock

variable {π δ : Type*} [DecidableEq π] {db : WriteLock π δ} {p q : π} {f : δ → δ}

/-- What a connection reads. -/
def view (p : π) (db : WriteLock π δ) : δ :=
  match db.writing with
  | some (q, version) => if q = p then version else db.committed
  | none => db.committed

/-- The version with everything that has been written. -/
def current (db : WriteLock π δ) : δ :=
  match db.writing with
  | some (_, version) => version
  | none => db.committed

/-- No other connection has a write transaction open. -/
def canWrite (p : π) (db : WriteLock π δ) : Bool :=
  match db.writing with
  | some (q, _) => q = p
  | none => true

/-- A statement that writes: it opens the write transaction where there is none. -/
def write (p : π) (f : δ → δ) (db : WriteLock π δ) : WriteLock π δ :=
  { db with writing := some (p, f (db.view p)) }

/-- `COMMIT`, of nothing where the connection has no write transaction. -/
def commit (p : π) (db : WriteLock π δ) : WriteLock π δ :=
  match db.writing with
  | some (q, version) => if q = p then ⟨version, none⟩ else db
  | none => db

theorem view_eq_current (h : db.canWrite p) : db.view p = db.current := by
  unfold canWrite at h
  unfold view current
  cases hw : db.writing with
  | none => rfl
  | some owner =>
    rw [hw] at h
    exact if_pos (of_decide_eq_true h)

/-- A connection reads the committed version or the current one. -/
theorem view_eq_or (p : π) (db : WriteLock π δ) :
    db.view p = db.committed ∨ db.view p = db.current := by
  unfold view current
  cases db.writing with
  | none => exact .inl rfl
  | some owner =>
    by_cases h : owner.1 = p
    · exact .inr (if_pos h)
    · exact .inl (if_neg h)

theorem eq_of_canWrite {version : δ} (h : db.canWrite p) (hw : db.writing = some (q, version)) :
    q = p := by
  unfold canWrite at h
  rw [hw] at h
  exact of_decide_eq_true h

@[simp] theorem committed_write : (db.write p f).committed = db.committed := rfl

theorem current_write (h : db.canWrite p) : (db.write p f).current = f db.current := by
  rw [← view_eq_current h]
  rfl

/-- A commit changes what the others read, and nothing that has been written. -/
theorem current_commit (p : π) (db : WriteLock π δ) : (db.commit p).current = db.current := by
  unfold commit
  cases hw : db.writing with
  | none => rfl
  | some owner =>
    show (if owner.1 = p then _ else _ : WriteLock π δ).current = _
    by_cases h : owner.1 = p
    · rw [if_pos h]
      unfold current
      rw [hw]
    · rw [if_neg h]

theorem committed_commit (p : π) (db : WriteLock π δ) :
    (db.commit p).committed = db.committed ∨ (db.commit p).committed = db.current := by
  unfold commit current
  cases hw : db.writing with
  | none => exact .inl rfl
  | some owner =>
    by_cases h : owner.1 = p
    · exact .inr (by simp [h])
    · exact .inl (by simp [h])

theorem committed_commit_of_writing {version : δ} (h : db.writing = some (p, version)) :
    (db.commit p).committed = version := by
  unfold commit
  rw [h]
  show (if p = p then _ else _ : WriteLock π δ).committed = version
  rw [if_pos rfl]

/-- The commit of another connection leaves the transaction open. -/
theorem commit_of_ne {version : δ} (h : db.writing = some (q, version)) (hne : q ≠ p) :
    db.commit p = db := by
  unfold commit
  rw [h]
  exact if_neg hne

/-! ## Versions that follow each other -/

section Order

variable [Preorder δ]

/-- The current version follows the committed one. -/
def Behind (db : WriteLock π δ) : Prop := db.committed ≤ db.current

omit [DecidableEq π] in
theorem behind_of_writing_eq_none (h : db.writing = none) : db.Behind := by
  unfold Behind current
  rw [h]

theorem Behind.le_view (h : db.Behind) (p : π) : db.committed ≤ db.view p := by
  obtain hv | hv := view_eq_or p db
  · rw [hv]
  · rw [hv]
    exact h

theorem Behind.view_le_current (h : db.Behind) (p : π) : db.view p ≤ db.current := by
  obtain hv | hv := view_eq_or p db
  · rw [hv]
    exact h
  · rw [hv]

theorem Behind.write (h : db.Behind) (hp : db.canWrite p) (hf : db.current ≤ f db.current) :
    (db.write p f).Behind := by
  unfold Behind
  rw [committed_write, current_write hp]
  exact le_trans h hf

theorem Behind.commit (h : db.Behind) (p : π) : (db.commit p).Behind := by
  unfold Behind
  rw [current_commit]
  obtain hc | hc := committed_commit p db
  · rw [hc]
    exact h
  · rw [hc]

theorem Behind.le_committed_commit (h : db.Behind) (p : π) :
    db.committed ≤ (db.commit p).committed := by
  obtain hc | hc := committed_commit p db
  · rw [hc]
  · rw [hc]
    exact h

end Order

end WriteLock

end Lib
