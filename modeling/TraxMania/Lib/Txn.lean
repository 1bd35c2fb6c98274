import TraxMania.Lib.Transition
import Mathlib.Tactic.Common

/-
  Programs over one database connection, with faults at any request. `committed` is what everybody
  sees, `working` what the open transaction has made of it, `view` the snapshot that the plain
  reads of the open transaction see once it has read at all.

  A request may go through, fail (the server undoes the request, or the whole transaction with it),
  or take the connection down; a commit may take effect although its answer is lost. After that
  every request on the connection fails.

  Nothing here is about a program in particular.
-/

namespace Lib.Txn

variable {ε δ α β : Type}

/-- What goes wrong with a request. -/
inductive Fault (ε : Type)
  /-- The request fails; with `undone` the server rolls the transaction back as well. -/
  | fails (e : ε) (undone : Bool)
  /-- The connection goes down; with `applied` a commit has taken effect before that. -/
  | drops (e : ε) (applied : Bool)
  deriving DecidableEq

/-- The error that the program sees. -/
def Fault.error : Fault ε → ε
  | .fails e _ => e
  | .drops e _ => e

/-- A connection, and the faults that its next requests meet (`none`: the request goes through, as
it does when there are none left). -/
structure Session (ε δ : Type) where
  committed : δ
  working : δ
  view : Option δ
  lost : Option ε
  faults : List (Option (Fault ε))

/-- A new connection to the database `d`. -/
def Session.start (d : δ) (faults : List (Option (Fault ε))) : Session ε δ :=
  ⟨d, d, none, none, faults⟩

/-- The transaction is undone. -/
def Session.undo (s : Session ε δ) : Session ε δ := { s with working := s.committed, view := none }

/-- The transaction takes effect. -/
def Session.publish (s : Session ε δ) : Session ε δ :=
  { s with committed := s.working, view := none }

/-- The connection is gone; the server undoes what is open. -/
def Session.drop (s : Session ε δ) (e : ε) : Session ε δ := { s.undo with lost := some e }

/-- A program on the connection. -/
abbrev Conn (ε δ : Type) := ExceptT ε (StateM (Session ε δ))

/-- What the program returns or raises, and the connection afterwards. -/
def perform (m : Conn ε δ α) (s : Session ε δ) : Except ε α × Session ε δ := (ExceptT.run m).run s

@[simp] theorem perform_pure (a : α) (s : Session ε δ) :
    perform (pure a : Conn ε δ α) s = (.ok a, s) := rfl

@[simp] theorem perform_throw (e : ε) (s : Session ε δ) :
    perform (throw e : Conn ε δ α) s = (.error e, s) := rfl

theorem perform_bind (m : Conn ε δ α) (f : α → Conn ε δ β) (s : Session ε δ) :
    perform (m >>= f) s =
      match perform m s with
      | (.ok a, s') => perform (f a) s'
      | (.error e, s') => (.error e, s') := by
  show (ExceptT.run (m >>= f)).run s = _
  rw [ExceptT.run_bind]
  simp only [perform, StateT.run_bind]
  show (match (ExceptT.run m).run s with | (a, s') => _) = _
  rcases (ExceptT.run m).run s with ⟨⟨e⟩ | ⟨a⟩, s'⟩ <;> rfl

theorem perform_tryCatch (m : Conn ε δ α) (h : ε → Conn ε δ α) (s : Session ε δ) :
    perform (tryCatch m h) s =
      match perform m s with
      | (.ok a, s') => (.ok a, s')
      | (.error e, s') => perform (h e) s' := by
  show (ExceptT.run (tryCatch m h)).run s = _
  rw [ExceptT.run_tryCatch]
  simp only [perform, StateT.run_bind]
  show (match (ExceptT.run m).run s with | (a, s') => _) = _
  rcases (ExceptT.run m).run s with ⟨⟨e⟩ | ⟨a⟩, s'⟩ <;> rfl

/-! ## Requests -/

/-- A request: it meets the next fault, or `act` happens. -/
def request (act : Session ε δ → Except ε α × Session ε δ)
    (fault : Fault ε → Session ε δ → Session ε δ) : Conn ε δ α :=
  ExceptT.mk fun s =>
    match s.lost with
    | some e => (.error e, s)
    | none =>
      match s.faults with
      | [] => act s
      | none :: faults => act { s with faults := faults }
      | some f :: faults => (.error f.error, fault f { s with faults := faults })

/-- What a fault does to the open transaction. -/
def interrupted : Fault ε → Session ε δ → Session ε δ
  | .fails _ undone, s => if undone then s.undo else s
  | .drops e _, s => s.drop e

/-- A writing statement. One that the database refuses changes nothing. -/
def exec (st : δ → Except ε δ) : Conn ε δ Unit :=
  request (fun s =>
    match st s.working with
    | .ok d => (.ok (), { s with working := d, view := s.view.map fun v => (st v).toOption.getD v })
    | .error e => (.error e, s)) interrupted

/-- A plain read: the first of a transaction takes the snapshot. -/
def select (f : δ → α) : Conn ε δ α :=
  request (fun s => (.ok (f (s.view.getD s.working)), { s with view := some (s.view.getD s.working) }))
    interrupted

/-- `COMMIT`. -/
def commit : Conn ε δ Unit :=
  request (fun s => (.ok (), s.publish)) fun
    | .drops e true, s => s.publish.drop e
    | f, s => interrupted f s

/-- `ROLLBACK`. It fails only when the connection is down. -/
def rollback : Conn ε δ Unit :=
  request (fun s => (.ok (), s.undo)) fun f s => s.drop f.error

/-- Statements one after another. -/
def execAll : List (δ → Except ε δ) → Conn ε δ Unit
  | [] => pure ()
  | st :: sts => do exec st; execAll sts

/-- The database after the statements, when none is refused. -/
def runAll : List (δ → Except ε δ) → δ → Except ε δ
  | [], d => .ok d
  | st :: sts, d =>
    match st d with
    | .ok d' => runAll sts d'
    | .error e => .error e

theorem runAll_cons_eq_ok {st : δ → Except ε δ} {sts : List (δ → Except ε δ)} {d d' : δ}
    (h : runAll (st :: sts) d = .ok d') : ∃ d₁, st d = .ok d₁ ∧ runAll sts d₁ = .ok d' := by
  rw [runAll] at h
  cases hst : st d with
  | error e => rw [hst] at h; cases h
  | ok d₁ => rw [hst] at h; exact ⟨d₁, rfl, h⟩

theorem runAll_append_eq_ok {sts sts' : List (δ → Except ε δ)} {d d' : δ}
    (h : runAll (sts ++ sts') d = .ok d') :
    ∃ d₁, runAll sts d = .ok d₁ ∧ runAll sts' d₁ = .ok d' := by
  induction sts generalizing d with
  | nil => exact ⟨d, rfl, h⟩
  | cons st sts ih =>
    obtain ⟨d₀, hst, hrest⟩ := runAll_cons_eq_ok h
    obtain ⟨d₁, hd₁, hd'⟩ := ih hrest
    refine ⟨d₁, ?_, hd'⟩
    rw [runAll, hst]
    exact hd₁

/-- Statements and a commit. -/
def atomically (sts : List (δ → Except ε δ)) : Conn ε δ Unit := do
  execAll sts
  commit

/-! ## Pre- and postconditions -/

/-- From `P` the program returns in `Q` or raises in `E`. -/
def Triple (P : Session ε δ → Prop) (m : Conn ε δ α) (Q : α → Session ε δ → Prop)
    (E : Session ε δ → Prop) : Prop :=
  ∀ s, P s →
    match perform m s with
    | (.ok a, s') => Q a s'
    | (.error _, s') => E s'

section Rules

variable {P P' : Session ε δ → Prop} {Q : α → Session ε δ → Prop} {R : β → Session ε δ → Prop}
  {E E' : Session ε δ → Prop}

theorem triple_pure (a : α) (h : ∀ s, P s → Q a s) : Triple P (pure a : Conn ε δ α) Q E :=
  fun s hs => h s hs

theorem triple_throw (e : ε) (h : ∀ s, P s → E s) : Triple P (throw e : Conn ε δ α) Q E :=
  fun s hs => h s hs

theorem triple_bind {m : Conn ε δ α} {f : α → Conn ε δ β} (hm : Triple P m Q E)
    (hf : ∀ a, Triple (Q a) (f a) R E) : Triple P (m >>= f) R E := by
  intro s hs
  rw [perform_bind]
  have h := hm s hs
  rcases hr : perform m s with ⟨_ | a, s'⟩ <;> rw [hr] at h
  · exact h
  · exact hf a s' h

theorem triple_tryCatch {m : Conn ε δ α} {f : ε → Conn ε δ α} (hm : Triple P m Q E)
    (hf : ∀ e, Triple E (f e) Q E') : Triple P (tryCatch m f) Q E' := by
  intro s hs
  rw [perform_tryCatch]
  have h := hm s hs
  rcases hr : perform m s with ⟨e | a, s'⟩ <;> rw [hr] at h
  · exact hf e s' h
  · exact h

theorem triple_weaken {Q' : α → Session ε δ → Prop} {m : Conn ε δ α} (hm : Triple P m Q E)
    (hP : ∀ s, P' s → P s) (hQ : ∀ a s, Q a s → Q' a s) (hE : ∀ s, E s → E' s) :
    Triple P' m Q' E' := by
  intro s hs
  have h := hm s (hP s hs)
  rcases hr : perform m s with ⟨_ | a, s'⟩ <;> rw [hr] at h
  · exact hE s' h
  · exact hQ a s' h

/-- The three ways a request can go. -/
theorem triple_request {act : Session ε δ → Except ε α × Session ε δ}
    {fault : Fault ε → Session ε δ → Session ε δ}
    (hlost : ∀ s, P s → s.lost.isSome → E s)
    (hact : ∀ s faults, P s → s.lost = none →
      match act { s with faults := faults } with
      | (.ok a, s') => Q a s'
      | (.error _, s') => E s')
    (hfault : ∀ s faults f, P s → s.lost = none → E (fault f { s with faults := faults })) :
    Triple P (request act fault) Q E := by
  intro s hs
  cases hl : s.lost with
  | some e =>
    have hrun : perform (request act fault) s = (.error e, s) := by
      simp only [perform, request, ExceptT.run_mk, StateT.run, hl]
    rw [hrun]
    exact hlost s hs (by rw [hl]; rfl)
  | none =>
    rcases hf : s.faults with _ | ⟨_ | f, faults⟩
    · have hrun : perform (request act fault) s = act s := by
        simp only [perform, request, ExceptT.run_mk, StateT.run, hl, hf]
      rw [hrun]
      exact hact s s.faults hs hl
    · have hrun : perform (request act fault) s = act { s with faults := faults } := by
        simp only [perform, request, ExceptT.run_mk, StateT.run, hl, hf]
      rw [hrun]
      exact hact s faults hs hl
    · have hrun : perform (request act fault) s =
          (.error f.error, fault f { s with faults := faults }) := by
        simp only [perform, request, ExceptT.run_mk, StateT.run, hl, hf]
      rw [hrun]
      exact hfault s faults f hs hl

end Rules

/-! ## Invariants of the database -/

/-- `J` holds of what is committed and of what the transaction has made of it, `K` of the snapshot
that its reads see. -/
structure Holds (J K : δ → Prop) (s : Session ε δ) : Prop where
  committed : J s.committed
  working : J s.working
  view : ∀ v, s.view = some v → K v

/-- The statement leads from `J` to `J`. -/
def Preserves (J : δ → Prop) (st : δ → Except ε δ) : Prop := ∀ d d', J d → st d = .ok d' → J d'

/-- The program keeps `I`, whether it returns or raises. -/
def Keeps (I : Session ε δ → Prop) (m : Conn ε δ α) : Prop := Triple I m (fun _ => I) I

theorem keeps_perform {I : Session ε δ → Prop} {m : Conn ε δ α} (hm : Keeps I m)
    {s : Session ε δ} (hs : I s) : I (perform m s).2 := by
  have h := hm s hs
  rcases hr : perform m s with ⟨_ | _, s'⟩ <;> rw [hr] at h <;> exact h

section Invariants

variable {J J' K : δ → Prop} {s : Session ε δ} {st : δ → Except ε δ} {d : δ}

theorem holds_start (hJ : J d) (faults : List (Option (Fault ε))) :
    Holds J K (Session.start d faults) := ⟨hJ, hJ, fun v hv => by simp [Session.start] at hv⟩

theorem holds_undo (h : J s.committed) : Holds J K s.undo :=
  ⟨h, h, fun v hv => by simp [Session.undo] at hv⟩

theorem holds_drop (h : J s.committed) (e : ε) : Holds J K (s.drop e) :=
  ⟨h, h, fun v hv => by simp [Session.drop, Session.undo] at hv⟩

theorem holds_publish (h : J s.working) : Holds J K s.publish :=
  ⟨h, h, fun v hv => by simp [Session.publish] at hv⟩

theorem Holds.weaken (h : Holds J K s) {J₁ K₁ : δ → Prop} (hJ : ∀ d, J d → J₁ d)
    (hK : ∀ d, K d → K₁ d) : Holds J₁ K₁ s :=
  ⟨hJ _ h.committed, hJ _ h.working, fun v hv => hK _ (h.view v hv)⟩

theorem holds_faults (h : Holds J K s) (faults : List (Option (Fault ε))) :
    Holds J K { s with faults := faults } := ⟨h.committed, h.working, h.view⟩

theorem holds_interrupted (h : Holds J K s) (f : Fault ε) : Holds J K (interrupted f s) := by
  cases f with
  | fails e undone =>
    cases undone
    · exact h
    · exact holds_undo h.committed
  | drops e applied => exact holds_drop h.committed e

theorem keeps_exec (hJ : Preserves J st) (hK : Preserves K st) : Keeps (Holds J K) (exec st) := by
  refine triple_request (fun s h _ => h) ?_ fun s faults f h _ =>
    holds_interrupted (holds_faults h faults) f
  intro s faults h _
  simp only
  cases hst : st s.working with
  | error e => exact holds_faults h faults
  | ok d =>
    refine ⟨h.committed, hJ _ _ h.working hst, fun v hv => ?_⟩
    simp only [Option.map_eq_some_iff] at hv
    obtain ⟨v', hv', rfl⟩ := hv
    cases hst' : st v' with
    | error e => exact h.view v' hv'
    | ok w => exact hK v' w (h.view v' hv') hst'

theorem keeps_commit : Keeps (Holds J K) (commit : Conn ε δ Unit) := by
  refine triple_request (fun s h _ => h) (fun s faults h _ => holds_publish h.working) ?_
  intro s faults f h _
  have h' := holds_faults h faults
  rcases f with ⟨e, undone⟩ | ⟨e, _ | _⟩
  · exact holds_interrupted h' _
  · exact holds_interrupted h' _
  · exact holds_drop h.working e

theorem keeps_rollback : Keeps (Holds J K) (rollback : Conn ε δ Unit) :=
  triple_request (fun _ h _ => h) (fun _ _ h _ => holds_undo h.committed)
    fun _ faults f h _ => holds_drop (holds_faults h faults).committed f.error

theorem keeps_execAll {sts : List (δ → Except ε δ)} (hJ : ∀ st ∈ sts, Preserves J st)
    (hK : ∀ st ∈ sts, Preserves K st) : Keeps (Holds J K) (execAll sts) := by
  induction sts with
  | nil => exact triple_pure () fun s h => h
  | cons st sts ih =>
    have hst := keeps_exec (hJ st List.mem_cons_self) (hK st List.mem_cons_self)
    exact triple_bind hst fun _ =>
      ih (fun st' h => hJ st' (List.mem_cons_of_mem _ h)) fun st' h => hK st' (List.mem_cons_of_mem _ h)

theorem keeps_atomically {sts : List (δ → Except ε δ)} (hJ : ∀ st ∈ sts, Preserves J st)
    (hK : ∀ st ∈ sts, Preserves K st) : Keeps (Holds J K) (atomically sts) :=
  triple_bind (keeps_execAll hJ hK) fun _ => keeps_commit

/-- A read sees a database in which the snapshot's invariant holds. -/
theorem triple_select (hJK : ∀ d, J d → K d) (f : δ → α) :
    Triple (Holds J K) (select f : Conn ε δ α) (fun a s => Holds J K s ∧ ∃ d, K d ∧ a = f d)
      (Holds J K) := by
  refine triple_request (fun s h _ => h) ?_ fun s faults f h _ =>
    holds_interrupted (holds_faults h faults) f
  intro s faults h _
  have hK : K (s.view.getD s.working) := by
    cases hv : s.view with
    | none => exact hJK _ h.working
    | some v => exact h.view v hv
  refine ⟨⟨h.committed, h.working, fun v hv => ?_⟩, _, hK, rfl⟩
  rw [← Option.some.inj hv]
  exact hK

/-! ## Transactions -/

/-- Nothing of the open transaction is committed; once the connection is down nothing is open. -/
structure Unsaved (J K : δ → Prop) (s : Session ε δ) : Prop where
  committed : J s.committed
  lost : s.lost.isSome → Holds J K s

/-- A transaction under way: the statements to come lead into `J'`. -/
structure Underway (J K J' : δ → Prop) (sts : List (δ → Except ε δ)) (s : Session ε δ) : Prop
    extends Unsaved J K s where
  result : ∀ d, runAll sts s.working = .ok d → J' d

/-- A transaction that has failed: without effect, or with the answer lost. -/
def Failed (J K J' : δ → Prop) (s : Session ε δ) : Prop :=
  Unsaved J K s ∨ Holds J' J' s ∧ s.lost.isSome

/-- All or nothing. -/
def Either (J J' K : δ → Prop) (s : Session ε δ) : Prop := Holds J K s ∨ Holds J' J' s

theorem unsaved_of_holds (h : Holds J K s) : Unsaved J K s := ⟨h.committed, fun _ => h⟩

theorem unsaved_faults (h : Unsaved J K s) (faults : List (Option (Fault ε))) :
    Unsaved J K { s with faults := faults } :=
  ⟨h.committed, fun hl => holds_faults (h.lost hl) faults⟩

theorem unsaved_interrupted (h : Unsaved J K s) (f : Fault ε) :
    Unsaved J K (interrupted f s) := by
  cases f with
  | fails e undone =>
    cases undone
    · exact h
    · exact unsaved_of_holds (holds_undo h.committed)
  | drops e applied => exact unsaved_of_holds (holds_drop h.committed e)

theorem triple_atomically (sts : List (δ → Except ε δ)) :
    Triple (Underway J K J' sts) (atomically sts) (fun _ => Holds J' J')
      (Failed J K J' : Session ε δ → Prop) := by
  induction sts with
  | nil =>
    have hcommit : Triple (Underway J K J' []) (commit : Conn ε δ Unit) (fun _ => Holds J' J')
        (Failed J K J') := by
      refine triple_request (fun s h _ => .inl h.toUnsaved)
        (fun s faults h _ => holds_publish (h.result _ rfl)) ?_
      intro s faults f h _
      have hunsaved := unsaved_faults h.toUnsaved faults
      rcases f with ⟨e, undone⟩ | ⟨e, _ | _⟩
      · exact .inl (unsaved_interrupted hunsaved _)
      · exact .inl (unsaved_interrupted hunsaved _)
      · exact .inr ⟨holds_drop (h.result _ rfl) e, rfl⟩
    exact hcommit
  | cons st sts ih =>
    have hst : Triple (Underway J K J' (st :: sts)) (exec st) (fun _ => Underway J K J' sts)
        (Failed J K J' : Session ε δ → Prop) := by
      refine triple_request (fun s h _ => .inl h.toUnsaved) ?_ fun s faults f h _ =>
        .inl (unsaved_interrupted (unsaved_faults h.toUnsaved faults) f)
      intro s faults h hlost
      simp only
      cases hd : st s.working with
      | error e => exact .inl (unsaved_faults h.toUnsaved faults)
      | ok d =>
        refine ⟨⟨h.committed, fun hl => absurd hl (by simp [hlost])⟩, fun d' hd' => h.result d' ?_⟩
        rw [runAll, hd]
        exact hd'
    intro s hs
    have hassoc : perform (atomically (st :: sts)) s =
        perform (exec st >>= fun _ => atomically sts) s := by
      simp only [atomically, execAll, perform_bind]
      rcases perform (exec st) s with ⟨_ | _, s'⟩ <;> rfl
    rw [hassoc]
    exact triple_bind hst (fun _ => ih) s hs

theorem triple_rollback : Triple (Failed J K J') (rollback : Conn ε δ Unit) (fun _ => Holds J K)
    (Either J J' K) := by
  refine triple_request ?_ ?_ ?_
  · rintro s (h | ⟨h, _⟩) hlost
    · exact .inl (h.lost hlost)
    · exact .inr h
  · rintro s faults (h | ⟨_, h⟩) hlost
    · exact holds_undo h.committed
    · simp [hlost] at h
  · rintro s faults f (h | ⟨_, h⟩) hlost
    · exact .inl (holds_drop (unsaved_faults h faults).committed f.error)
    · simp [hlost] at h

/-- A transaction whose failure is rolled back and then handled from the state before it. -/
theorem triple_attempt {sts : List (δ → Except ε δ)} {handle : ε → Conn ε δ Unit}
    (hsts : ∀ d d', J d → runAll sts d = .ok d' → J' d')
    (hhandle : ∀ e, Triple (Holds J K) (handle e) (fun _ => Either J J' K) (Either J J' K)) :
    Triple (Holds J K) (tryCatch (atomically sts) fun e => do rollback; handle e)
      (fun _ => Either J J' K) (Either J J' K) := by
  have hrun : Triple (Holds J K) (atomically sts) (fun _ => Either J J' K)
      (Failed J K J' : Session ε δ → Prop) :=
    triple_weaken (triple_atomically sts)
      (fun s h => ⟨unsaved_of_holds h, fun d => hsts _ d h.working⟩) (fun _ s h => .inr h)
      fun s h => h
  exact triple_tryCatch hrun fun e => triple_bind triple_rollback fun _ => hhandle e

end Invariants

/-! ## A loop, turn by turn -/

section Turns

variable {ρ : Type}

variable {ω : Type*} {ι : Type*} {step : ω → ι → ω} {input : ρ → ι} {body : ρ → Conn ε δ Unit}

end Turns

end Lib.Txn
