import TraxMania.Lib.Txn

/-
  Where the first fault of a run falls: `cutoff n` counts the requests that go through before it,
  among the next `n`. A request behaves as if there were no faults as long as it is not cut off.
  Here are also the statements that commit implicitly: they make the open transaction and
  themselves durable.

  Nothing here is about a program in particular.
-/

namespace Lib.Txn

variable {ε δ α β : Type}

/-! ## The first fault -/

/-- The first fault among the next `n` requests, and how many of them go through before it. -/
def cutoff : Nat → List (Option (Fault ε)) → Option (Nat × Fault ε)
  | 0, _ => none
  | _ + 1, [] => none
  | n + 1, none :: faults => (cutoff n faults).map fun c => (c.1 + 1, c.2)
  | _ + 1, some f :: _ => some (0, f)

@[simp] theorem cutoff_zero (faults : List (Option (Fault ε))) : cutoff 0 faults = none := by
  cases faults <;> rfl

@[simp] theorem cutoff_nil (n : Nat) : cutoff n ([] : List (Option (Fault ε))) = none := by
  cases n <;> rfl

/-- The requests of one part of a program come before those of the next. -/
theorem cutoff_add (m n : Nat) (faults : List (Option (Fault ε))) :
    cutoff (m + n) faults =
      match cutoff m faults with
      | some c => some c
      | none => (cutoff n (faults.drop m)).map fun c => (c.1 + m, c.2) := by
  induction m generalizing faults with
  | zero => simp
  | succ m ih =>
      rw [Nat.succ_add]
      rcases faults with _ | ⟨_ | f, faults⟩
      · simp
      · rw [cutoff, cutoff, ih, List.drop_succ_cons]
        cases cutoff m faults with
        | some c => rfl
        | none =>
            rw [Option.map_none, Option.map_map]
            rfl
      · rfl

theorem cutoff_add_of_none {m : Nat} {faults : List (Option (Fault ε))} (h : cutoff m faults = none)
    (n : Nat) :
    cutoff (m + n) faults = (cutoff n (faults.drop m)).map fun c => (c.1 + m, c.2) := by
  rw [cutoff_add, h]

theorem cutoff_add_of_some {m : Nat} {faults : List (Option (Fault ε))} {c : Nat × Fault ε}
    (h : cutoff m faults = some c) (n : Nat) : cutoff (m + n) faults = some c := by
  rw [cutoff_add, h]

theorem cutoff_add_eq_none {m n : Nat} {faults : List (Option (Fault ε))} :
    cutoff (m + n) faults = none ↔ cutoff m faults = none ∧ cutoff n (faults.drop m) = none := by
  rw [cutoff_add]
  cases cutoff m faults with
  | some c => simp
  | none => simp

theorem cutoff_lt {n p : Nat} {f : Fault ε} {faults : List (Option (Fault ε))}
    (h : cutoff n faults = some (p, f)) : p < n := by
  induction n generalizing p faults with
  | zero => simp at h
  | succ n ih =>
      rcases faults with _ | ⟨_ | g, faults⟩
      · cases h
      · obtain ⟨⟨q, g⟩, hc, heq⟩ := Option.map_eq_some_iff.mp h
        obtain ⟨hp, rfl⟩ := Prod.mk.inj heq
        have hlt : q < n := ih hc
        omega
      · obtain ⟨hp, -⟩ := Prod.mk.inj (Option.some.inj h)
        omega

/-- A fault in one of `n + 1` requests hits the first of them, or one of the others. -/
theorem cutoff_succ_cases {n p : Nat} {f : Fault ε} {faults : List (Option (Fault ε))}
    (h : cutoff (n + 1) faults = some (p, f)) :
    p = 0 ∧ cutoff 1 faults = some (0, f) ∨
      ∃ q, p = q + 1 ∧ cutoff 1 faults = none ∧ cutoff n (faults.drop 1) = some (q, f) := by
  rw [Nat.add_comm, cutoff_add] at h
  cases hfirst : cutoff 1 faults with
  | some c =>
      rw [hfirst] at h
      obtain rfl := Option.some.inj h
      obtain rfl : p = 0 := Nat.lt_one_iff.mp (cutoff_lt hfirst)
      exact Or.inl ⟨rfl, rfl⟩
  | none =>
      rw [hfirst] at h
      obtain ⟨⟨q, g⟩, hrest, heq⟩ := Option.map_eq_some_iff.mp h
      obtain ⟨rfl, rfl⟩ := Prod.mk.inj heq
      exact Or.inr ⟨q, rfl, rfl, hrest⟩

/-! ## One request -/

section Request

variable {act : Session ε δ → Except ε α × Session ε δ}
  {fault : Fault ε → Session ε δ → Session ε δ} {s : Session ε δ}

theorem perform_request_of_lost {e : ε} (hlost : s.lost = some e) :
    perform (request act fault) s = (.error e, s) := by
  obtain ⟨committed, working, view, lost, faults⟩ := s
  subst hlost
  rfl

theorem perform_request_of_none (hlost : s.lost = none) (h : cutoff 1 s.faults = none) :
    perform (request act fault) s = act { s with faults := s.faults.drop 1 } := by
  obtain ⟨committed, working, view, lost, faults⟩ := s
  subst hlost
  rcases faults with _ | ⟨_ | f, faults⟩
  · rfl
  · rfl
  · cases h

theorem perform_request_of_some {p : Nat} {f : Fault ε} (hlost : s.lost = none)
    (h : cutoff 1 s.faults = some (p, f)) :
    perform (request act fault) s =
      (.error f.error, fault f { s with faults := s.faults.drop 1 }) := by
  obtain ⟨committed, working, view, lost, faults⟩ := s
  subst hlost
  rcases faults with _ | ⟨_ | g, faults⟩
  · cases h
  · simp [cutoff] at h
  · obtain ⟨-, rfl⟩ := Prod.mk.inj (Option.some.inj h)
    rfl

end Request

/-- A fault that strikes a statement leaves alone what is committed, and undoes the open
    transaction or leaves it as it is. -/
structure Struck (s s' : Session ε δ) : Prop where
  committed : s'.committed = s.committed
  working : s'.working = s.working ∨ s'.working = s.committed

theorem struck_interrupted (f : Fault ε) (s : Session ε δ) : Struck s (interrupted f s) := by
  rcases f with ⟨e, _ | _⟩ | ⟨e, applied⟩
  · exact ⟨rfl, .inl rfl⟩
  · exact ⟨rfl, .inr rfl⟩
  · exact ⟨rfl, .inr rfl⟩

/-- Some requests have gone through, and none of them has changed the database. -/
structure Passed (n : Nat) (s s' : Session ε δ) : Prop where
  committed : s'.committed = s.committed
  working : s'.working = s.working
  lost : s'.lost = none
  faults : s'.faults = s.faults.drop n

theorem Passed.trans {m n : Nat} {s s' s'' : Session ε δ} (h : Passed m s s')
    (h' : Passed n s' s'') : Passed (m + n) s s'' := by
  refine ⟨h'.committed.trans h.committed, h'.working.trans h.working, h'.lost, ?_⟩
  rw [h'.faults, h.faults, List.drop_drop]

theorem Passed.struck {n : Nat} {s s' s'' : Session ε δ} (h : Passed n s s') (h' : Struck s' s'') :
    Struck s s'' := by
  refine ⟨h'.committed.trans h.committed, ?_⟩
  rw [← h.working, ← h.committed]
  exact h'.working

section Effects

variable {st : δ → Except ε δ} {s : Session ε δ} {d : δ} {p : Nat} {f : Fault ε}

/-- The read of something that the program does not change. -/
theorem perform_read_of_none (a : α) (hlost : s.lost = none) (h : cutoff 1 s.faults = none) :
    ∃ s', perform (select fun _ => a) s = (.ok a, s') ∧ Passed 1 s s' :=
  ⟨_, perform_request_of_none hlost h, ⟨rfl, rfl, hlost, rfl⟩⟩

theorem perform_read_of_some (a : α) (hlost : s.lost = none)
    (h : cutoff 1 s.faults = some (p, f)) :
    ∃ s', perform (select fun _ : δ => a) s = (.error f.error, s') ∧ Struck s s' := by
  have hstruck := struck_interrupted f { s with faults := s.faults.drop 1 }
  exact ⟨_, perform_request_of_some hlost h, ⟨hstruck.committed, hstruck.working⟩⟩

theorem perform_exec_of_none (st : δ → Except ε δ) (hlost : s.lost = none) (h : cutoff 1 s.faults = none)
    (hst : st s.working = .ok d) :
    ∃ s', perform (exec st) s = (.ok (), s') ∧ s'.lost = none ∧ s'.faults = s.faults.drop 1 ∧
      s'.committed = s.committed ∧ s'.working = d := by
  refine ⟨{ s with
    faults := s.faults.drop 1
    working := d
    view := s.view.map fun v => (st v).toOption.getD v }, ?_, hlost, rfl, rfl, rfl⟩
  unfold exec
  rw [perform_request_of_none hlost h]
  simp only [hst]

theorem perform_exec_of_some (st : δ → Except ε δ) (hlost : s.lost = none)
    (h : cutoff 1 s.faults = some (p, f)) :
    ∃ s', perform (exec st) s = (.error f.error, s') ∧ Struck s s' := by
  have hstruck := struck_interrupted f { s with faults := s.faults.drop 1 }
  exact ⟨_, perform_request_of_some hlost h, ⟨hstruck.committed, hstruck.working⟩⟩

/-- A commit that fails: it has taken effect although its answer is lost, or it has not. -/
theorem perform_commit_of_some (hlost : s.lost = none) (h : cutoff 1 s.faults = some (p, f)) :
    ∃ s', perform commit s = (.error f.error, s') ∧
      ((∃ e, f = .drops e true) ∧ s'.committed = s.working ∧ s'.working = s.working ∨
        (¬ ∃ e, f = .drops e true) ∧ Struck s s') := by
  refine ⟨_, perform_request_of_some hlost h, ?_⟩
  rcases f with ⟨e, _ | _⟩ | ⟨e, _ | _⟩
  · exact .inr ⟨by simp, rfl, .inl rfl⟩
  · exact .inr ⟨by simp, rfl, .inr rfl⟩
  · exact .inr ⟨by simp, rfl, .inr rfl⟩
  · exact .inl ⟨⟨e, rfl⟩, rfl, rfl⟩

end Effects

/-! ## Many statements -/

section Many

variable {s : Session ε δ}

/-- Statements that the database does not refuse. -/
def accepted (fs : List (δ → δ)) : List (δ → Except ε δ) := fs.map fun f d => .ok (f d)

theorem perform_execAll_of_none (fs : List (δ → δ)) (s : Session ε δ) (hlost : s.lost = none)
    (h : cutoff fs.length s.faults = none) :
    ∃ s', perform (execAll (accepted fs)) s = (.ok (), s') ∧ s'.lost = none ∧
      s'.faults = s.faults.drop fs.length ∧ s'.committed = s.committed ∧
      s'.working = fs.foldl (fun d f => f d) s.working := by
  induction fs generalizing s with
  | nil => exact ⟨s, rfl, hlost, rfl, rfl, rfl⟩
  | cons f fs ih =>
      rw [List.length_cons, Nat.add_comm] at h
      obtain ⟨hfirst, hrest⟩ := cutoff_add_eq_none.mp h
      obtain ⟨s₁, hrun, hlost₁, hfaults, hcommitted, hworking⟩ :=
        perform_exec_of_none (fun d => .ok (f d)) hlost hfirst rfl
      rw [← hfaults] at hrest
      obtain ⟨s₂, hrun₂, hlost₂, hfaults₂, hcommitted₂, hworking₂⟩ := ih s₁ hlost₁ hrest
      refine ⟨s₂, ?_, hlost₂, ?_, hcommitted₂.trans hcommitted, ?_⟩
      · show perform (exec _ >>= fun _ => execAll (accepted fs)) s = _
        rw [perform_bind, hrun]
        exact hrun₂
      · rw [hfaults₂, hfaults, List.drop_drop, List.length_cons, Nat.add_comm]
      · rw [hworking₂, hworking]
        rfl

/-- A fault in one of the statements: those before it stay in the open transaction, unless it is
    undone. -/
theorem perform_execAll_of_some {p : Nat} {fault : Fault ε} (fs : List (δ → δ)) (s : Session ε δ)
    (hlost : s.lost = none) (h : cutoff fs.length s.faults = some (p, fault)) :
    ∃ s', perform (execAll (accepted fs)) s = (.error fault.error, s') ∧
      s'.committed = s.committed ∧ (s'.working = s.committed ∨
        s'.working = (fs.take p).foldl (fun d f => f d) s.working) := by
  induction fs generalizing s p with
  | nil => simp at h
  | cons f fs ih =>
      rw [List.length_cons] at h
      rcases cutoff_succ_cases h with ⟨rfl, hfirst⟩ | ⟨q, rfl, hfirst, hrest⟩
      · obtain ⟨s₁, hrun, hstruck⟩ :=
          perform_exec_of_some (fun d => .ok (f d)) hlost hfirst
        refine ⟨s₁, ?_, hstruck.committed, hstruck.working.symm⟩
        show perform (exec _ >>= fun _ => execAll (accepted fs)) s = _
        rw [perform_bind, hrun]
      · obtain ⟨s₁, hrun, hlost₁, hfaults, hcommitted, hworking⟩ :=
          perform_exec_of_none (fun d => .ok (f d)) hlost hfirst rfl
        rw [← hfaults] at hrest
        obtain ⟨s₂, hrun₂, hcommitted₂, hworking₂⟩ := ih s₁ hlost₁ hrest
        refine ⟨s₂, ?_, hcommitted₂.trans hcommitted, ?_⟩
        · show perform (exec _ >>= fun _ => execAll (accepted fs)) s = _
          rw [perform_bind, hrun]
          exact hrun₂
        · rw [hcommitted, hworking] at hworking₂
          exact hworking₂

end Many

/-! ## Exceptions that are caught -/

/-- `try … except Exception`: the result, or the exception. -/
def attempt (m : Conn ε δ α) : Conn ε δ (Except ε α) :=
  tryCatch (m >>= fun a => pure (.ok a)) fun e => pure (.error e)

@[simp] theorem perform_attempt (m : Conn ε δ α) (s : Session ε δ) :
    perform (attempt m) s = (.ok (perform m s).1, (perform m s).2) := by
  unfold attempt
  rw [perform_tryCatch, perform_bind]
  rcases perform m s with ⟨_ | _, s'⟩
  · rfl
  · rfl

/-! ## Statements that commit implicitly -/

/-- What a fault says besides the error. -/
def Fault.flag : Fault ε → Bool
  | .fails _ b => b
  | .drops _ b => b

/-- What a fault does to a statement that commits implicitly. Its flag says that it strikes after
    the implicit commit of what the transaction has made so far. -/
def implicitlyCommitted (f : Fault ε) (s : Session ε δ) : Session ε δ :=
  let s := if f.flag then s.publish else s
  match f with
  | .fails _ _ => s
  | .drops e _ => s.drop e

/-- A statement that commits the open transaction before it, and itself. -/
def execDdl (st : δ → Except ε δ) : Conn ε δ Unit :=
  request (fun s =>
    match st s.working with
    | .ok d => (.ok (), { s with committed := d, working := d, view := none })
    | .error e => (.error e, s.publish)) implicitlyCommitted

/-! ## Connections at rest -/

/-- The connection is up, and nothing is open on the database `d`. -/
structure Rest (d : δ) (s : Session ε δ) : Prop where
  committed : s.committed = d
  working : s.working = d
  view : ∀ v, s.view = some v → v = d
  lost : s.lost = none

section Rest

variable {d : δ} {s : Session ε δ}

theorem rest_start (d : δ) (faults : List (Option (Fault ε))) : Rest d (Session.start d faults) :=
  ⟨rfl, rfl, nofun, rfl⟩

theorem perform_commit_of_none (hlost : s.lost = none) (h : cutoff 1 s.faults = none) :
    ∃ s', perform commit s = (.ok (), s') ∧ Rest s.working s' ∧ s'.faults = s.faults.drop 1 :=
  ⟨_, perform_request_of_none hlost h, ⟨rfl, rfl, nofun, hlost⟩, rfl⟩

/-- A read of a connection at rest. -/
theorem perform_select_of_none (f : δ → α) (hs : Rest d s) (h : cutoff 1 s.faults = none) :
    ∃ s', perform (select f) s = (.ok (f d), s') ∧ Rest d s' ∧ s'.faults = s.faults.drop 1 := by
  have hview : s.view.getD s.working = d := by
    cases hv : s.view with
    | none => exact hs.working
    | some v => exact hs.view v hv
  refine ⟨{ s with faults := s.faults.drop 1, view := some d }, ?_, ?_, rfl⟩
  · unfold select
    rw [perform_request_of_none hs.lost h]
    simp only [hview]
  · exact ⟨hs.committed, hs.working, fun v hv => (Option.some.inj hv).symm, hs.lost⟩

theorem perform_select_of_some (f : δ → α) {p : Nat} {fault : Fault ε} (hs : Rest d s)
    (h : cutoff 1 s.faults = some (p, fault)) :
    ∃ s', perform (select f) s = (.error fault.error, s') ∧ s'.committed = d := by
  refine ⟨interrupted fault { s with faults := s.faults.drop 1 }, ?_, ?_⟩
  · exact perform_request_of_some hs.lost h
  · rcases fault with ⟨e, _ | _⟩ | ⟨e, applied⟩
    · exact hs.committed
    · exact hs.committed
    · exact hs.committed

end Rest

/-- A rollback leaves alone what is committed. -/
theorem committed_rollback (s : Session ε δ) : (perform rollback s).2.committed = s.committed := by
  obtain ⟨committed, working, view, lost, faults⟩ := s
  rcases lost with _ | e
  · rcases faults with _ | ⟨_ | f, faults⟩
    · rfl
    · rfl
    · rfl
  · rfl

end Lib.Txn
