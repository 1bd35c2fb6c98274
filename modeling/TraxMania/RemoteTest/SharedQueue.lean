import TraxMania.Lib.Transition
import TraxMania.Lib.WriteLock
import TraxMania.RemoteTest.StoreCalls

/-
  Several server processes on one database file, statement by statement. Each process has a lock for
  its own threads; a write transaction opens with the first `UPDATE` of a call and ends with its
  `COMMIT`, and an `UPDATE` of another process waits for it. The last statement of `claim_next`
  reads the job once more, after the lock is free.
-/

namespace TraxMania.RemoteTest

open TraxMania.Generation Lib

/-- Where a thread is in its call. -/
inductive Thread where
  | idle
  /-- `claim_next` has selected the job; its `UPDATE` comes next. -/
  | claiming (now : Int) (agentId : String) (jobId : Int)
  /-- The `COMMIT` of `claim_next` comes next. -/
  | claimed (agentId : String) (jobId : Int)
  /-- The lock is free, and `claim_next` reads the job once more. -/
  | rereading (agentId : String) (jobId : Int)
  /-- `transition` has checked the row; its `UPDATE` comes next. -/
  | moving (now : Int) (jobId : Int) (toStatus : JobStatus) (detail reportJson : Option String)
  /-- `sweep_timeouts` has selected the jobs; the `UPDATE` of the first comes next. -/
  | sweeping (now : Int) (jobId : Int) (rest : List Int)
  /-- The `COMMIT` of `transition` or `sweep_timeouts` comes next. -/
  | committing

/-- The thread holds the lock of its process. -/
def Thread.critical : Thread → Bool
  | idle => false
  | rereading .. => false
  | _ => true

/-- The database, the thread that holds the lock of each process, the threads, and what `claim_next`
    has returned to whom. -/
structure Workers (τ π : Type) where
  db : WriteLock π Store
  holder : π → Option τ
  threads : τ → Thread
  returned : List (String × Job)

/-- What happens next. -/
inductive Happening (τ : Type) where
  /-- A job comes in, where no write transaction is open. -/
  | enqueue (runId digest : String) (size : Nat) (timeoutSeconds createdAt : Int)
      (metadataJson : String)
  /-- The thread takes the lock for `claim_next` and makes its `SELECT`. -/
  | claimNext (t : τ) (now : Int) (agentId : String)
  /-- The thread takes the lock for `transition`, makes its `SELECT` and checks the row. -/
  | transition (t : τ) (now : Int) (jobId : Int) (toStatus : JobStatus)
      (agentId detail report : Json)
  /-- The thread takes the lock for `sweep_timeouts` and makes its `SELECT`. -/
  | sweepTimeouts (t : τ) (now : Int)
  /-- The thread makes its next statement. -/
  | proceed (t : τ)

section

variable {τ π : Type} [DecidableEq τ] [DecidableEq π] (py : StorePython) (proc : τ → π)

namespace Workers

/-- New processes on an empty file. -/
def start : Workers τ π := ⟨⟨.empty, none⟩, fun _ => none, fun _ => .idle, []⟩

/-- The thread has no call, and the lock of its process is free. -/
def ready (t : τ) (s : Workers τ π) : Bool :=
  match s.threads t with
  | .idle => (s.holder (proc t)).isNone
  | _ => false

/-- The thread takes the lock, and goes on from there. -/
def enter (t : τ) (thread : Thread) (s : Workers τ π) : Workers τ π :=
  { s with
    holder := Function.update s.holder (proc t) (some t)
    threads := Function.update s.threads t thread }

/-- The thread makes an `UPDATE` and goes on, unless it has to wait for another process. -/
def update (t : τ) (f : Store → Store) (thread : Thread) (s : Workers τ π) : Workers τ π :=
  if s.db.canWrite (proc t) then
    { s with db := s.db.write (proc t) f, threads := Function.update s.threads t thread }
  else s

/-- The thread commits, gives the lock back and goes on. -/
def commit (t : τ) (thread : Thread) (s : Workers τ π) : Workers τ π :=
  { s with
    db := s.db.commit (proc t)
    holder := Function.update s.holder (proc t) none
    threads := Function.update s.threads t thread }

/-- The end of `claim_next`. -/
def reread (t : τ) (agentId : String) (jobId : Int) (s : Workers τ π) : Workers τ π :=
  { s with
    threads := Function.update s.threads t .idle
    returned :=
      match (s.db.view (proc t)).get py jobId with
      | .ok (some job) => s.returned ++ [(agentId, job)]
      | _ => s.returned }

/-- The next statement of a thread. -/
def proceed (t : τ) (s : Workers τ π) : Workers τ π :=
  match s.threads t with
  | .idle => s
  | .claiming now agentId jobId =>
    s.update proc t (Store.claimRow now agentId jobId) (.claimed agentId jobId)
  | .claimed agentId jobId => s.commit proc t (.rereading agentId jobId)
  | .rereading agentId jobId => s.reread py proc t agentId jobId
  | .moving now jobId toStatus detail reportJson =>
    s.update proc t (Store.moveRow now toStatus detail reportJson jobId) .committing
  | .sweeping now jobId [] => s.update proc t (Store.sweepRow now jobId) .committing
  | .sweeping now jobId (nextId :: rest) =>
    s.update proc t (Store.sweepRow now jobId) (.sweeping now nextId rest)
  | .committing => s.commit proc t .idle

/-- The beginning of `claim_next`. -/
def beginClaim (t : τ) (now : Int) (agentId : String) (s : Workers τ π) : Workers τ π :=
  if agentId = "" then s
  else
    match (s.db.view (proc t)).oldestQueued with
    | none => s
    | some r => s.enter proc t (.claiming now agentId r.id)

/-- The beginning of `transition`; a call that raises gives the lock back. -/
def beginTransition (t : τ) (now : Int) (jobId : Int) (toStatus : JobStatus)
    (agentId detail report : Json) (s : Workers τ π) : Workers τ π :=
  match (s.db.view (proc t)).jobs.find jobId with
  | none => s
  | some row =>
    match Store.prepareMove py row toStatus agentId detail report with
    | .error _ => s
    | .ok (detail, reportJson) => s.enter proc t (.moving now jobId toStatus detail reportJson)

/-- The beginning of `sweep_timeouts`; without a stale job that is all. -/
def beginSweep (t : τ) (now : Int) (s : Workers τ π) : Workers τ π :=
  match (s.db.view (proc t)).staleIds now with
  | [] => s
  | jobId :: rest => s.enter proc t (.sweeping now jobId rest)

/-- What a happening does. -/
def step (s : Workers τ π) : Happening τ → Workers τ π
  | .enqueue runId digest size timeoutSeconds createdAt metadataJson =>
    match s.db.writing with
    | some _ => s
    | none =>
      let row := Store.newRow runId digest size timeoutSeconds createdAt metadataJson
      let hrow := Store.newRow_id runId digest size timeoutSeconds createdAt metadataJson
      { s with db := ⟨s.db.committed.insertJob row hrow, none⟩ }
  | .claimNext t now agentId =>
    if s.ready proc t then s.beginClaim proc t now agentId else s
  | .transition t now jobId toStatus agentId detail report =>
    if s.ready proc t then s.beginTransition py proc t now jobId toStatus agentId detail report else s
  | .sweepTimeouts t now => if s.ready proc t then s.beginSweep proc t now else s
  | .proceed t => s.proceed py proc t

end Workers

end

end TraxMania.RemoteTest

/-
  The queue behind several workers: what is safe as long as no `UPDATE` comes too late for the row
  that its call has selected.
-/

namespace TraxMania.RemoteTest

open TraxMania.Generation Lib Lib.Transition

/-! ## Rows that keep their agent and their end -/

/-- A later version of a row: a terminal status stays, the queue is not entered again, and outside
    of the queue the agent stays. -/
structure JobRow.Kept (r r' : JobRow) : Prop where
  id_eq : r'.id = r.id
  terminal : r.status.isTerminal → r'.status = r.status
  unqueued : r.status ≠ .queued → r'.status ≠ .queued
  agent : r.status ≠ .queued → r'.agentId = r.agentId

namespace JobRow.Kept

variable {r r' r'' : JobRow}

theorem refl (r : JobRow) : r.Kept r := ⟨rfl, fun _ => rfl, fun h => h, fun _ => rfl⟩

theorem trans (h : r.Kept r') (h' : r'.Kept r'') : r.Kept r'' where
  id_eq := h'.id_eq.trans h.id_eq
  terminal hr := (h'.terminal (by rwa [h.terminal hr])).trans (h.terminal hr)
  unqueued hr := h'.unqueued (h.unqueued hr)
  agent hr := (h'.agent (h.unqueued hr)).trans (h.agent hr)

theorem claim (now : Int) (agentId : String) (h : r.status = .queued) :
    r.Kept (r.claim now agentId) where
  id_eq := rfl
  terminal hr := by
    rw [h] at hr
    cases hr
  unqueued hr := absurd h hr
  agent hr := absurd h hr

/-- An `UPDATE` that leaves the agent alone, takes no job into the queue and ends no ended job. -/
theorem write {f : JobRow → JobRow} {toStatus : JobStatus} (hid : (f r).id = r.id)
    (hstatus : (f r).status = toStatus) (hagent : (f r).agentId = r.agentId)
    (hqueued : toStatus ≠ .queued) (hlate : r.status.isTerminal → r.status = toStatus) :
    r.Kept (f r) where
  id_eq := hid
  terminal hr := hstatus.trans (hlate hr).symm
  unqueued _ := hstatus ▸ hqueued
  agent _ := hagent

end JobRow.Kept

namespace Store

/-- A later version of the store has every row, in a later version. -/
instance instPreorder : Preorder Store where
  le s s' := ∀ r ∈ s.jobs.rows, ∃ r' ∈ s'.jobs.rows, r.Kept r'
  le_refl s r hr := ⟨r, hr, .refl r⟩
  le_trans s s' s'' h h' r hr := by
    obtain ⟨r', hr', hkept⟩ := h r hr
    obtain ⟨r'', hr'', hkept'⟩ := h' r' hr'
    exact ⟨r'', hr'', hkept.trans hkept'⟩

variable {s : Store}

theorem le_updateJobs {p : JobRow → Bool} {f : JobRow → JobRow} (hf : ∀ r, (f r).id = r.id)
    (h : ∀ r ∈ s.jobs.rows, p r → r.Kept (f r)) : s ≤ s.updateJobs p f hf := by
  intro r hr
  refine ⟨if p r then f r else r, List.mem_map.mpr ⟨r, hr, rfl⟩, ?_⟩
  split
  · next hp => exact h r hr hp
  · exact .refl r

theorem le_claimRow (now : Int) (agentId : String) (jobId : Int) :
    s ≤ s.claimRow now agentId jobId := by
  apply le_updateJobs
  intro r _ hp
  rw [Bool.and_eq_true, decide_eq_true_eq, decide_eq_true_eq] at hp
  exact .claim now agentId hp.2

theorem le_moveRow (now : Int) {toStatus : JobStatus} (detail reportJson : Option String)
    {jobId : Int} (hqueued : toStatus ≠ .queued)
    (hlate : ∀ r ∈ s.jobs.rows, r.id = jobId → r.status.isTerminal → r.status = toStatus) :
    s ≤ s.moveRow now toStatus detail reportJson jobId := by
  apply le_updateJobs
  intro r hr hp
  exact .write rfl rfl rfl hqueued (hlate r hr (of_decide_eq_true hp))

theorem le_sweepRow (now : Int) {jobId : Int}
    (hlate : ∀ r ∈ s.jobs.rows, r.id = jobId → r.status.isTerminal → r.status = .timedOut) :
    s ≤ s.sweepRow now jobId := by
  apply le_updateJobs
  intro r hr hp
  exact .write rfl rfl rfl nofun (hlate r hr (of_decide_eq_true hp))

theorem le_insertJob (row : Int → JobRow) (hrow : ∀ id, (row id).id = id) :
    s ≤ s.insertJob row hrow := by
  intro r hr
  exact ⟨r, List.mem_append_left _ hr, .refl r⟩

/-- The job has left the queue, in the hands of the agent. -/
def Owned (agentId : String) (jobId : Int) (s : Store) : Prop :=
  ∃ r ∈ s.jobs.rows, r.id = jobId ∧ r.status ≠ .queued ∧ r.agentId = some agentId

theorem Owned.mono {s' : Store} {agentId : String} {jobId : Int} (h : s.Owned agentId jobId)
    (hle : s ≤ s') : s'.Owned agentId jobId := by
  obtain ⟨r, hr, hid, hout, hagent⟩ := h
  obtain ⟨r', hr', hkept⟩ := hle r hr
  exact ⟨r', hr', hkept.id_eq.trans hid, hkept.unqueued hout, (hkept.agent hout).trans hagent⟩

/-- A job has one agent. -/
theorem Owned.agent_eq {agentId agentId' : String} {jobId : Int} (h : s.Owned agentId jobId)
    (h' : s.Owned agentId' jobId) : agentId = agentId' := by
  obtain ⟨r, hr, hid, -, hagent⟩ := h
  obtain ⟨r', hr', hid', -, hagent'⟩ := h'
  rw [s.jobs.eq_of_key_eq hr hr' (hid.trans hid'.symm), hagent'] at hagent
  exact (Option.some.inj hagent).symm

/-- After its `UPDATE`, the job that a claim has selected is the caller's, unless another agent or
    none had it outside of the queue. -/
theorem owned_claimRow (now : Int) {agentId : String} {jobId : Int}
    (hjob : ∃ r ∈ s.jobs.rows, r.id = jobId)
    (hfree : ∀ r ∈ s.jobs.rows, r.id = jobId → r.status = .queued ∨ r.agentId = some agentId) :
    (s.claimRow now agentId jobId).Owned agentId jobId := by
  obtain ⟨r, hr, hid⟩ := hjob
  by_cases hqueued : r.status = .queued
  · refine ⟨r.claim now agentId, List.mem_map.mpr ⟨r, hr, if_pos ?_⟩, hid, nofun, rfl⟩
    simp [hid, hqueued]
  · refine ⟨r, List.mem_map.mpr ⟨r, hr, if_neg ?_⟩, hid, hqueued, ?_⟩
    · simp [hqueued]
    · exact (hfree r hr hid).resolve_left hqueued

end Store

theorem get_of_owned {py : StorePython} {agentId : String} {jobId : Int} {s : Store} {job : Job}
    (h : s.get py jobId = .ok (some job)) (howned : s.Owned agentId jobId) :
    job.id = jobId ∧ job.agentId = some agentId := by
  obtain ⟨r, hr, hid, -, hagent⟩ := howned
  unfold Store.get at h
  rw [Table.find_eq_some.mpr ⟨hr, hid⟩] at h
  cases hjob : rowToJob py r with
  | error e =>
      simp only [hjob] at h
      cases h
  | ok job' =>
      simp only [hjob] at h
      obtain rfl := Option.some.inj (Except.ok.inj h)
      obtain ⟨hjobId, -, hjobAgent⟩ := rowToJob_eq_ok hjob
      exact ⟨hjobId.trans hid, hjobAgent.trans hagent⟩

/-! ## Threads -/

section

variable {τ π : Type}

/-- What a thread knows of the database. -/
def Thread.Ok (db : WriteLock π Store) (p : π) : Thread → Prop
  | .claiming _ _ jobId => ∃ r ∈ db.current.jobs.rows, r.id = jobId
  | .claimed agentId jobId => ∃ s, db.writing = some (p, s) ∧ s.Owned agentId jobId
  | .rereading agentId jobId => db.committed.Owned agentId jobId
  | .moving _ _ toStatus _ _ => toStatus ≠ .queued
  | _ => True

/-- What a thread knows stays true, as long as its own write transaction stays as it is. -/
theorem Thread.Ok.mono {db db' : WriteLock π Store} {p : π} {thread : Thread} (h : thread.Ok db p)
    (hle : db.committed ≤ db'.committed) (hcurrent : db.current ≤ db'.current)
    (hwriting : thread.critical → ∀ s, db.writing = some (p, s) → db'.writing = some (p, s)) :
    thread.Ok db' p := by
  cases thread with
  | claiming now agentId jobId =>
      obtain ⟨r, hr, hid⟩ := h
      obtain ⟨r', hr', hkept⟩ := hcurrent r hr
      exact ⟨r', hr', hkept.id_eq.trans hid⟩
  | claimed agentId jobId =>
      obtain ⟨s, hs, howned⟩ := h
      exact ⟨s, hwriting rfl s hs, howned⟩
  | rereading agentId jobId => exact Store.Owned.mono h hle
  | moving now jobId toStatus detail reportJson => exact h
  | idle => trivial
  | sweeping now jobId rest => trivial
  | committing => trivial

/-- The next `UPDATE` of the thread finds the row as its call has seen it, or as it does no harm: a
    claim finds the job in the queue or already with the caller, a transition or a sweep does not
    find it ended in another status. -/
def Thread.InTime (s : Store) : Thread → Prop
  | .claiming _ agentId jobId =>
    ∀ r ∈ s.jobs.rows, r.id = jobId → r.status = .queued ∨ r.agentId = some agentId
  | .moving _ jobId toStatus _ _ =>
    ∀ r ∈ s.jobs.rows, r.id = jobId → r.status.isTerminal → r.status = toStatus
  | .sweeping _ jobId _ =>
    ∀ r ∈ s.jobs.rows, r.id = jobId → r.status.isTerminal → r.status = .timedOut
  | _ => True

variable (proc : τ → π)

/-- The invariant of the workers. -/
structure Workers.Safe (s : Workers τ π) : Prop where
  behind : s.db.Behind
  /-- A thread in the critical part of its call holds the lock of its process. -/
  lock : ∀ t, (s.threads t).critical → s.holder (proc t) = some t
  threads : ∀ t, (s.threads t).Ok s.db (proc t)
  /-- Whatever a claim has returned is the caller's. -/
  returned : ∀ e ∈ s.returned, e.2.agentId = some e.1 ∧ s.db.committed.Owned e.1 e.2.id

/-- The step keeps the invariant, and makes only later versions. -/
structure Workers.Goes (s s' : Workers τ π) : Prop where
  safe : s'.Safe proc
  committed : s.db.committed ≤ s'.db.committed
  current : s.db.current ≤ s'.db.current

namespace Workers

variable {proc} {s : Workers τ π} {t : τ} {thread : Thread}

theorem goes_refl (hs : s.Safe proc) : s.Goes proc s := ⟨hs, le_refl _, le_refl _⟩

theorem Goes.trans {s' s'' : Workers τ π} (h : s.Goes proc s') (h' : s'.Goes proc s'') :
    s.Goes proc s'' where
  safe := h'.safe
  committed := le_trans h.committed h'.committed
  current := le_trans h.current h'.current

theorem safe_start (proc : τ → π) : (start : Workers τ π).Safe proc where
  behind := WriteLock.behind_of_writing_eq_none rfl
  lock _ ht := nomatch ht
  threads _ := trivial
  returned _ he := nomatch he

/-- Two threads in their critical parts are in different processes. -/
theorem Safe.proc_ne (hs : s.Safe proc) {t' : τ} (ht : (s.threads t).critical)
    (ht' : (s.threads t').critical) (hne : t' ≠ t) : proc t' ≠ proc t := by
  intro hproc
  have hholder := hs.lock t' ht'
  rw [hproc, hs.lock t ht] at hholder
  exact hne (Option.some.inj hholder).symm

theorem returned_mono (hs : s.Safe proc) {st : Store} (hle : s.db.committed ≤ st) :
    ∀ e ∈ s.returned, e.2.agentId = some e.1 ∧ st.Owned e.1 e.2.id := by
  intro e he
  obtain ⟨hagent, howned⟩ := hs.returned e he
  exact ⟨hagent, howned.mono hle⟩

/-- A job comes in. -/
theorem goes_enqueue (hs : s.Safe proc) (hfree : s.db.writing = none) {row : Int → JobRow}
    (hrow : ∀ id, (row id).id = id) :
    s.Goes proc { s with db := ⟨s.db.committed.insertJob row hrow, none⟩ } := by
  have hle : s.db.committed ≤ s.db.committed.insertJob row hrow := Store.le_insertJob row hrow
  have hcurrent : s.db.current ≤
      (⟨s.db.committed.insertJob row hrow, none⟩ : WriteLock π Store).current := by
    show s.db.current ≤ s.db.committed.insertJob row hrow
    unfold WriteLock.current
    rw [hfree]
    exact hle
  refine ⟨⟨?_, hs.lock, ?_, returned_mono hs hle⟩, hle, hcurrent⟩
  · exact WriteLock.behind_of_writing_eq_none rfl
  · intro t'
    apply (hs.threads t').mono hle hcurrent
    intro _ st hst
    rw [hfree] at hst
    cases hst

variable [DecidableEq τ] [DecidableEq π]

/-- A thread takes the lock. -/
theorem goes_enter (hs : s.Safe proc) (hready : s.ready proc t) (hok : thread.Ok s.db (proc t)) :
    s.Goes proc (s.enter proc t thread) := by
  have hfree : s.holder (proc t) = none := by
    unfold ready at hready
    split at hready
    · exact Option.isNone_iff_eq_none.mp hready
    · cases hready
  refine ⟨⟨hs.behind, ?_, ?_, hs.returned⟩, le_refl _, le_refl _⟩
  · intro t' ht'
    show Function.update s.holder (proc t) (some t) (proc t') = some t'
    by_cases heq : t' = t
    · rw [heq, Function.update_self]
    · have hcritical : (s.threads t').critical := by
        simpa [enter, Function.update_of_ne heq] using ht'
      have hproc : proc t' ≠ proc t := by
        intro hproc
        have hholder := hs.lock t' hcritical
        rw [hproc, hfree] at hholder
        cases hholder
      rw [Function.update_of_ne hproc]
      exact hs.lock t' hcritical
  · intro t'
    show (Function.update s.threads t thread t').Ok s.db (proc t')
    by_cases heq : t' = t
    · rw [heq, Function.update_self]
      exact hok
    · rw [Function.update_of_ne heq]
      exact hs.threads t'

/-- A thread makes an `UPDATE`. -/
theorem goes_update (hs : s.Safe proc) {f : Store → Store} (ht : (s.threads t).critical)
    (hf : s.db.canWrite (proc t) → s.db.current ≤ f s.db.current)
    (hok : s.db.canWrite (proc t) → thread.Ok (s.db.write (proc t) f) (proc t)) :
    s.Goes proc (s.update proc t f thread) := by
  unfold update
  by_cases hwrite : s.db.canWrite (proc t)
  · have hle : s.db.committed ≤ (s.db.write (proc t) f).committed := le_refl _
    have hcurrent : s.db.current ≤ (s.db.write (proc t) f).current := by
      rw [WriteLock.current_write hwrite]
      exact hf hwrite
    rw [if_pos hwrite]
    refine ⟨⟨hs.behind.write hwrite (hf hwrite), ?_, ?_, hs.returned⟩, hle, hcurrent⟩
    · intro t' ht'
      by_cases heq : t' = t
      · rw [heq]
        exact hs.lock t ht
      · apply hs.lock t'
        simpa [Function.update_of_ne heq] using ht'
    · intro t'
      show (Function.update s.threads t thread t').Ok (s.db.write (proc t) f) (proc t')
      by_cases heq : t' = t
      · rw [heq, Function.update_self]
        exact hok hwrite
      · rw [Function.update_of_ne heq]
        apply (hs.threads t').mono hle hcurrent
        intro hcritical st hst
        exact absurd (WriteLock.eq_of_canWrite hwrite hst) (hs.proc_ne ht hcritical heq)
  · rw [if_neg hwrite]
    exact goes_refl hs

/-- A thread commits and gives the lock back. -/
theorem goes_commit (hs : s.Safe proc) (ht : (s.threads t).critical)
    (hthread : thread.critical = false) (hok : thread.Ok (s.db.commit (proc t)) (proc t)) :
    s.Goes proc (s.commit proc t thread) := by
  have hle := hs.behind.le_committed_commit (proc t)
  have hcurrent : s.db.current ≤ (s.db.commit (proc t)).current := by
    rw [WriteLock.current_commit]
  refine ⟨⟨hs.behind.commit (proc t), ?_, ?_, returned_mono hs hle⟩, hle, hcurrent⟩
  · intro t' ht'
    show Function.update s.holder (proc t) none (proc t') = some t'
    by_cases heq : t' = t
    · simp [commit, heq, hthread] at ht'
    · have hcritical : (s.threads t').critical := by
        simpa [commit, Function.update_of_ne heq] using ht'
      rw [Function.update_of_ne (hs.proc_ne ht hcritical heq)]
      exact hs.lock t' hcritical
  · intro t'
    show (Function.update s.threads t thread t').Ok (s.db.commit (proc t)) (proc t')
    by_cases heq : t' = t
    · rw [heq, Function.update_self]
      exact hok
    · rw [Function.update_of_ne heq]
      apply (hs.threads t').mono hle hcurrent
      intro hcritical st hst
      rw [WriteLock.commit_of_ne hst (hs.proc_ne ht hcritical heq)]
      exact hst

/-- A claim reads its job once more. -/
theorem goes_reread {py : StorePython} (hs : s.Safe proc) {agentId : String} {jobId : Int}
    (hthread : s.threads t = .rereading agentId jobId) :
    s.Goes proc (s.reread py proc t agentId jobId) := by
  have howned : s.db.committed.Owned agentId jobId := by
    have h := hs.threads t
    rwa [hthread] at h
  refine ⟨⟨hs.behind, ?_, ?_, ?_⟩, le_refl _, le_refl _⟩
  · intro t' ht'
    by_cases heq : t' = t
    · simp [reread, heq, Thread.critical] at ht'
    · apply hs.lock t'
      simpa [reread, Function.update_of_ne heq] using ht'
  · intro t'
    show (Function.update s.threads t .idle t').Ok s.db (proc t')
    by_cases heq : t' = t
    · rw [heq, Function.update_self]
      trivial
    · rw [Function.update_of_ne heq]
      exact hs.threads t'
  · unfold reread
    simp only
    split
    · next job hjob =>
      intro e he
      obtain he | he := List.mem_append.mp he
      · exact hs.returned e he
      · rw [List.mem_singleton.mp he]
        obtain ⟨hid, hagent⟩ := get_of_owned hjob (howned.mono (hs.behind.le_view (proc t)))
        rw [hid]
        exact ⟨hagent, howned⟩
    · exact hs.returned

/-! ## Every step -/

variable (py : StorePython) (proc)

/-- An `UPDATE` comes in time when it is its thread's turn to write. -/
def InTime (s : Workers τ π) : Happening τ → Prop
  | .proceed t => s.db.canWrite (proc t) → (s.threads t).InTime s.db.current
  | _ => True

variable {py proc}

theorem goes_proceed (hs : s.Safe proc) (htime : s.InTime proc (.proceed t)) :
    s.Goes proc (s.proceed py proc t) := by
  have hok := hs.threads t
  have htime : s.db.canWrite (proc t) → (s.threads t).InTime s.db.current := htime
  unfold proceed
  cases hthread : s.threads t with
  | idle => exact goes_refl hs
  | claiming now agentId jobId =>
      rw [hthread] at hok htime
      apply goes_update hs (by rw [hthread]; rfl)
      · intro _
        exact Store.le_claimRow now agentId jobId
      · intro hwrite
        refine ⟨_, rfl, ?_⟩
        rw [WriteLock.view_eq_current hwrite]
        exact Store.owned_claimRow now hok (htime hwrite)
  | claimed agentId jobId =>
      rw [hthread] at hok
      apply goes_commit hs (by rw [hthread]; rfl) rfl
      obtain ⟨st, hst, howned⟩ := hok
      show (s.db.commit (proc t)).committed.Owned agentId jobId
      rwa [WriteLock.committed_commit_of_writing hst]
  | rereading agentId jobId => exact goes_reread hs hthread
  | moving now jobId toStatus detail reportJson =>
      rw [hthread] at hok htime
      apply goes_update hs (by rw [hthread]; rfl)
      · intro hwrite
        exact Store.le_moveRow now detail reportJson hok (htime hwrite)
      · exact fun _ => trivial
  | sweeping now jobId rest =>
      rw [hthread] at htime
      cases rest with
      | nil =>
          apply goes_update hs (by rw [hthread]; rfl)
          · exact fun hwrite => Store.le_sweepRow now (htime hwrite)
          · exact fun _ => trivial
      | cons nextId rest =>
          apply goes_update hs (by rw [hthread]; rfl)
          · exact fun hwrite => Store.le_sweepRow now (htime hwrite)
          · exact fun _ => trivial
  | committing => exact goes_commit hs (by rw [hthread]; rfl) rfl trivial

theorem goes_beginClaim (hs : s.Safe proc) (hready : s.ready proc t) (now : Int)
    (agentId : String) : s.Goes proc (s.beginClaim proc t now agentId) := by
  unfold beginClaim
  split
  · exact goes_refl hs
  · split
    · exact goes_refl hs
    · next r holdest =>
      apply goes_enter hs hready
      have hmem := (Store.mem_of_oldestQueued holdest).1
      obtain ⟨r', hr', hkept⟩ := hs.behind.view_le_current (proc t) r hmem
      exact ⟨r', hr', hkept.id_eq⟩

theorem goes_beginTransition (hs : s.Safe proc) (hready : s.ready proc t) (now jobId : Int)
    (toStatus : JobStatus) (agentId detail report : Json) :
    s.Goes proc (s.beginTransition py proc t now jobId toStatus agentId detail report) := by
  unfold beginTransition
  split
  · exact goes_refl hs
  · next row hrow =>
    split
    · exact goes_refl hs
    · next detailText reportJson hprepare =>
      apply goes_enter hs hready
      intro hqueued
      have hallowed := Store.allowed_of_prepareMove hprepare
      rw [hqueued] at hallowed
      exact JobStatus.queued_notMem_allowed row.status hallowed

theorem goes_beginSweep (hs : s.Safe proc) (hready : s.ready proc t) (now : Int) :
    s.Goes proc (s.beginSweep proc t now) := by
  unfold beginSweep
  split
  · exact goes_refl hs
  · exact goes_enter hs hready trivial

theorem goes_step (py : StorePython) (hs : s.Safe proc) {happening : Happening τ}
    (htime : s.InTime proc happening) :
    s.Goes proc (s.step py proc happening) := by
  cases happening with
  | enqueue runId digest size timeoutSeconds createdAt metadataJson =>
      simp only [step]
      split
      · exact goes_refl hs
      · next hfree => exact goes_enqueue hs hfree _
  | claimNext t now agentId =>
      simp only [step]
      split
      · next hready => exact goes_beginClaim hs hready now agentId
      · exact goes_refl hs
  | transition t now jobId toStatus agentId detail report =>
      simp only [step]
      split
      · next hready =>
        exact goes_beginTransition hs hready now jobId toStatus agentId detail report
      · exact goes_refl hs
  | sweepTimeouts t now =>
      simp only [step]
      split
      · next hready => exact goes_beginSweep hs hready now
      · exact goes_refl hs
  | proceed t => exact goes_proceed hs htime

/-! ## Runs -/

theorem goes_after (happenings : List (Happening τ)) :
    ∀ s : Workers τ π, s.Safe proc → Steps (InTime proc) (step py proc) s happenings →
      s.Goes proc (after (step py proc) s happenings) := by
  induction happenings with
  | nil => exact fun s hs _ => goes_refl hs
  | cons happening happenings ih =>
      intro s hs hsteps
      have hstep := goes_step py hs hsteps.1
      exact hstep.trans (ih _ hstep.safe hsteps.2)

/-- A terminal row of the one version has its status in the other. -/
def EndsKept (st st' : Store) : Prop :=
  ∀ r ∈ st.jobs.rows, r.status.isTerminal →
    ∃ r' ∈ st'.jobs.rows, r'.id = r.id ∧ r'.status = r.status

theorem endsKept_of_le {st st' : Store} (h : st ≤ st') : EndsKept st st' := by
  intro r hr hterminal
  obtain ⟨r', hr', hkept⟩ := h r hr
  exact ⟨r', hr', hkept.id_eq, hkept.terminal hterminal⟩

variable (py proc)

/-- As long as every `UPDATE` comes in time: no job is returned to two agents, a returned job is the
    caller's, and a job that has ended at some point of the run keeps its status, both for the
    others and in an open write transaction. -/
theorem shared_queue_safe (happenings : List (Happening τ))
    (htime : Steps (InTime proc) (step py proc) (start : Workers τ π) happenings) :
    (∀ e ∈ (after (step py proc) start happenings).returned,
      ∀ e' ∈ (after (step py proc) start happenings).returned, e.2.id = e'.2.id → e.1 = e'.1) ∧
    (∀ e ∈ (after (step py proc) start happenings).returned, e.2.agentId = some e.1) ∧
    ∀ before later, before ++ later = happenings →
      EndsKept (after (step py proc) start before).db.committed
          (after (step py proc) start happenings).db.committed ∧
        EndsKept (after (step py proc) start before).db.current
          (after (step py proc) start happenings).db.current := by
  have hsafe := (goes_after happenings start (safe_start proc) htime).safe
  refine ⟨?_, fun e he => (hsafe.returned e he).1, ?_⟩
  · intro e he e' he' hid
    have howned := (hsafe.returned e he).2
    rw [hid] at howned
    exact howned.agent_eq (hsafe.returned e' he').2
  · rintro before later rfl
    obtain ⟨hbefore, hlater⟩ := steps_append.mp htime
    have hstart := (goes_after before start (safe_start proc) hbefore).safe
    have hgoes := goes_after later _ hstart hlater
    rw [after_append]
    exact ⟨endsKept_of_le hgoes.committed, endsKept_of_le hgoes.current⟩

end Workers

end

/-! ## Two processes -/

/-- Functions that write and read empty objects. -/
def emptyObjects : StorePython where
  dumps _ := .ok "\x7b\x7d"
  loads _ := .ok (.obj [])
  sha256 _ := "00"
  repr _ := ""
  columnText _ := .error .typeError

instance Thread.decidableInTime (s : Store) (thread : Thread) : Decidable (thread.InTime s) := by
  cases thread <;> unfold Thread.InTime <;> infer_instance

instance Workers.decidableInTime (s : Workers Bool Bool) (happening : Happening Bool) :
    Decidable (s.InTime id happening) := by
  cases happening <;> unfold Workers.InTime <;> infer_instance

/-- A job comes in, and the agent `a` claims it at the first process. -/
def oneClaim : List (Happening Bool) :=
  [.enqueue "run" "00" 1 300 0 "\x7b\x7d", .claimNext false 1 "a", .proceed false, .proceed false,
    .proceed false]

theorem oneClaim_safe :
    let s : Workers Bool Bool := after (Workers.step emptyObjects id) Workers.start oneClaim
    s.returned.map (fun e => (e.1, e.2.id)) = [("a", 1)] ∧
      ∀ e ∈ s.returned, e.2.agentId = some e.1 :=
  ⟨by decide +kernel,
    (Workers.shared_queue_safe id emptyObjects oneClaim (by decide +kernel)).2.1⟩

/-- The second process selects the job for the agent `b` before the first one has written. -/
def twoClaims : List (Happening Bool) :=
  [.enqueue "run" "00" 1 300 0 "\x7b\x7d", .claimNext false 1 "a", .claimNext true 1 "b",
    .proceed false, .proceed false, .proceed false, .proceed true, .proceed true, .proceed true]

/-- Both agents get the job, and the second one a job of the first. -/
theorem claimed_by_both :
    let s : Workers Bool Bool := after (Workers.step emptyObjects id) Workers.start twoClaims
    s.returned.map (fun e => (e.1, e.2.id, e.2.status, e.2.agentId)) =
      [("a", 1, .claimed, some "a"), ("b", 1, .claimed, some "a")] := by
  decide +kernel

end TraxMania.RemoteTest
