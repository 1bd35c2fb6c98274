import TraxMania.RemoteTest.StoreCalls
import TraxMania.Lib.Transition

/-
  The life of a job in one server process: what holds after every sequence of calls of the store.
-/

namespace TraxMania.RemoteTest

open TraxMania.Generation Lib Lib.SortBy Lib.Transition

/-- A call of the store, with the time that it reads and what the database makes of it. -/
inductive Call where
  | enqueue (db : Database) (now : Int) (existing : String → Option (List UInt8))
      (root runId : String) (artifact : Option (List UInt8)) (metadata : Json)
      (timeoutSeconds : Int)
  | claimNext (db : Database) (now : Int) (agentId : String)
  | transition (db : Database) (now : Int) (jobId : Int) (toStatus : JobStatus)
      (agentId detail report : Json)
  | sweepTimeouts (db : Database) (now : Int)

/-- The time that the call reads. -/
def Call.now : Call → Int
  | .enqueue _ now .. => now
  | .claimNext _ now _ => now
  | .transition _ now .. => now
  | .sweepTimeouts _ now => now

section

variable (py : StorePython)

/-- The store after a call, whether it returns or raises. -/
def perform (s : Store) : Call → Store
  | .enqueue db now existing root runId artifact metadata timeoutSeconds =>
    (s.enqueue py db now existing root runId artifact metadata timeoutSeconds).2
  | .claimNext db now agentId => (s.claimNext py db now agentId).2
  | .transition db now jobId toStatus agentId detail report =>
    (s.transition py db now jobId toStatus agentId detail report).2
  | .sweepTimeouts db now => (s.sweepTimeouts db now).2

/-- The job that a call of `claim_next` returns. -/
def claimedJob (s : Store) : Call → Option Job
  | .claimNext db now agentId =>
    match (s.claimNext py db now agentId).1 with
    | .ok job => job
    | .error _ => none
  | _ => none

/-- The ids that `claim_next` returns in the course of the calls. -/
def claimedIds (s : Store) : List Call → List Int
  | [] => []
  | c :: calls => ((claimedJob py s c).map (·.id)).toList ++ claimedIds (perform py s c) calls

/-- Whatever the call, every row evolves as the store means it to. -/
theorem advance_perform (s : Store) (c : Call) :
    Advance JobRow.Evolves c.now s (perform py s c) := by
  have hsame : ∀ r : JobRow, r.Evolves r := fun r => .same
  cases c with
  | enqueue => apply Store.advance_enqueue hsame
  | claimNext db now agentId =>
      exact Store.advance_claimNext hsame agentId fun r hr => .claim now agentId hr
  | transition db now jobId toStatus agentId detail report =>
      apply Store.advance_transition hsame
      intro r _ _ values hvalues
      exact .move now toStatus values.1 values.2 (Store.allowed_of_prepareMove hvalues)
  | sweepTimeouts db now =>
      exact Store.advance_sweepTimeouts hsame fun r hr => .sweep now (JobRow.status_of_stale hr)

/-! ## What one call leaves in place -/

variable {py} {now : Int} {s s' : Store}

namespace Advance

theorem stamped (h : Advance JobRow.Evolves now s s') (hs : ∀ r ∈ s.jobs.rows, r.Stamped) :
    ∀ r ∈ s'.jobs.rows, r.Stamped := by
  intro r' hr'
  obtain ⟨r, hr, hevolves⟩ | hfresh := h.exists_before hr'
  · exact hevolves.stamped (hs r hr)
  · unfold JobRow.Stamped
    rw [hfresh.completedAt, hfresh.status]
    decide

/-- A terminal row is not written. -/
theorem frozen (h : Advance JobRow.Evolves now s s') {r : JobRow} (hr : r ∈ s.jobs.rows)
    (hterminal : r.status.isTerminal) : r ∈ s'.jobs.rows := by
  obtain ⟨r', hr', hevolves⟩ := h.exists_after hr
  rwa [← hevolves.eq_of_isTerminal hterminal]

end Advance

/-- A later state of the row: the same work, and out of the queue if it was. -/
structure JobRow.Later (r r' : JobRow) : Prop where
  id_eq : r'.id = r.id
  artifact_eq : r'.artifact = r.artifact
  unqueued : r.status ≠ .queued → r'.status ≠ .queued

theorem JobRow.Later.refl (r : JobRow) : r.Later r := ⟨rfl, rfl, fun h => h⟩

theorem JobRow.Later.trans {r r' r'' : JobRow} (h : r.Later r') (h' : r'.Later r'') : r.Later r'' where
  id_eq := h'.id_eq.trans h.id_eq
  artifact_eq := h'.artifact_eq.trans h.artifact_eq
  unqueued hr := h'.unqueued (h.unqueued hr)

theorem JobRow.Evolves.later {r r' : JobRow} (h : r.Evolves r') : r.Later r' where
  id_eq := h.id_eq
  artifact_eq := h.artifact_eq
  unqueued hr hr' := hr (by rw [← h.eq_of_queued hr']; exact hr')

/-! ## Runs -/

variable (py)

theorem stamped_after (s : Store) (calls : List Call) (hs : ∀ r ∈ s.jobs.rows, r.Stamped) :
    ∀ r ∈ (after (perform py) s calls).jobs.rows, r.Stamped := by
  induction calls generalizing s with
  | nil => exact hs
  | cons c calls ih => exact ih _ ((advance_perform py s c).stamped hs)

theorem frozen_after (s : Store) (calls : List Call) {r : JobRow} (hr : r ∈ s.jobs.rows)
    (hterminal : r.status.isTerminal) : r ∈ (after (perform py) s calls).jobs.rows := by
  induction calls generalizing s with
  | nil => exact hr
  | cons c calls ih => exact ih _ ((advance_perform py s c).frozen hr hterminal)

theorem later_after (s : Store) (calls : List Call) {r : JobRow} (hr : r ∈ s.jobs.rows) :
    ∃ r' ∈ (after (perform py) s calls).jobs.rows, r.Later r' := by
  induction calls generalizing s r with
  | nil => exact ⟨r, hr, .refl r⟩
  | cons c calls ih =>
      obtain ⟨r₁, hr₁, hevolves⟩ := (advance_perform py s c).exists_after hr
      obtain ⟨r', hr', hlater⟩ := ih _ hr₁
      exact ⟨r', hr', hevolves.later.trans hlater⟩

/-! ## Claims -/

theorem find_claimRow (now : Int) (agentId : String) {r : JobRow} (hr : r ∈ s.jobs.rows)
    (hqueued : r.status = .queued) :
    (s.claimRow now agentId r.id).jobs.find r.id = some (r.claim now agentId) := by
  have hfind : s.jobs.find r.id = some r := Table.find_eq_some.mpr ⟨hr, rfl⟩
  show (s.jobs.update (fun r' => r'.id = r.id && r'.status = .queued) (JobRow.claim now agentId)
    (Store.claim_id now agentId)).find r.id = _
  rw [Table.find_update, hfind, Option.map_some, if_pos (by simp [hqueued])]

/-- A claim that returns a job has found a queued row, the oldest one, and hands it to the caller. -/
theorem claimNext_eq_ok {db : Database} {agentId : String} {job : Job}
    (h : (s.claimNext py db now agentId).1 = .ok (some job)) :
    ∃ r, s.oldestQueued = some r ∧ job.id = r.id ∧ job.status = .claimed ∧
      job.agentId = some agentId ∧ (s.claimNext py db now agentId).2 = s.claimRow now agentId r.id := by
  unfold Store.claimNext at h ⊢
  by_cases hagent : agentId = ""
  · rw [if_pos hagent] at h
    cases h
  · rw [if_neg hagent] at h ⊢
    by_cases hrefuses : db = .refuses
    · rw [if_pos hrefuses] at h
      cases h
    · rw [if_neg hrefuses] at h ⊢
      cases holdest : s.oldestQueued with
      | none =>
          rw [holdest] at h
          cases h
      | some r =>
          obtain ⟨hmem, hqueued⟩ := Store.mem_of_oldestQueued holdest
          rw [holdest] at h
          simp only [Database.finish, Store.get, find_claimRow now agentId hmem hqueued] at h
          by_cases hlate : db = .failsLate
          · rw [if_pos hlate] at h
            cases h
          · rw [if_neg hlate] at h
            cases hjob : rowToJob py (r.claim now agentId) with
            | error e =>
                rw [hjob] at h
                cases h
            | ok job' =>
                rw [hjob] at h
                obtain rfl := Option.some.inj (Except.ok.inj h)
                obtain ⟨hid, hstatus, howner⟩ := rowToJob_eq_ok hjob
                exact ⟨r, rfl, hid, hstatus, howner, rfl⟩

/-- The job has left the queue. -/
def Spent (s : Store) (jobId : Int) : Prop :=
  ∃ r ∈ s.jobs.rows, r.id = jobId ∧ r.status ≠ .queued

theorem Advance.spent (h : Advance JobRow.Evolves now s s') {jobId : Int} (hs : Spent s jobId) :
    Spent s' jobId := by
  obtain ⟨r, hr, hid, hout⟩ := hs
  obtain ⟨r', hr', hevolves⟩ := h.exists_after hr
  exact ⟨r', hr', hevolves.later.id_eq.trans hid, hevolves.later.unqueued hout⟩

/-- What is claimed was queued before, and has left the queue afterwards. -/
theorem spent_of_claimedJob {c : Call} {job : Job} (h : claimedJob py s c = some job) :
    ¬ Spent s job.id ∧ Spent (perform py s c) job.id := by
  cases c with
  | enqueue => cases h
  | transition => cases h
  | sweepTimeouts => cases h
  | claimNext db now agentId =>
      have hok : (s.claimNext py db now agentId).1 = .ok (some job) := by
        simp only [claimedJob] at h
        split at h
        · next heq => rw [heq, h]
        · cases h
      obtain ⟨r, holdest, hid, -, -, hstore⟩ := claimNext_eq_ok py hok
      obtain ⟨hmem, hqueued⟩ := Store.mem_of_oldestQueued holdest
      constructor
      · rintro ⟨r', hr', hid', hout⟩
        rw [s.jobs.eq_of_key_eq hr' hmem (hid'.trans hid)] at hout
        exact hout hqueued
      · have hfind := find_claimRow now agentId hmem hqueued
        rw [← hstore, ← hid] at hfind
        obtain ⟨hr', hid'⟩ := Table.find_eq_some.mp hfind
        exact ⟨r.claim now agentId, hr', hid', nofun⟩

/-- A job that has left the queue is not claimed again. -/
theorem notMem_claimedIds {jobId : Int} (calls : List Call) :
    ∀ s, Spent s jobId → jobId ∉ claimedIds py s calls := by
  induction calls with
  | nil => simp [claimedIds]
  | cons c calls ih =>
      intro s hspent hmem
      obtain hnow | hlater := List.mem_append.mp hmem
      · obtain ⟨job, hjob, rfl⟩ := Option.map_eq_some_iff.mp (Option.mem_toList.mp hnow)
        exact (spent_of_claimedJob py hjob).1 hspent
      · exact ih _ ((advance_perform py s c).spent hspent) hlater

theorem claimedIds_nodup (s : Store) (calls : List Call) : (claimedIds py s calls).Nodup := by
  induction calls generalizing s with
  | nil => exact List.nodup_nil
  | cons c calls ih =>
      unfold claimedIds
      cases hjob : claimedJob py s c with
      | none => exact ih _
      | some job =>
          apply List.nodup_cons.mpr
          exact ⟨notMem_claimedIds py calls _ (spent_of_claimedJob py hjob).2, ih _⟩

/-! ## The order of the queue -/

/-- The jobs were created in the order of their rows, and none after `now`. -/
structure InOrder (now : Int) (s : Store) : Prop where
  created : s.jobs.rows.Pairwise fun r r' => r.createdAt ≤ r'.createdAt
  past : ∀ r ∈ s.jobs.rows, r.createdAt ≤ now

theorem Advance.inOrder (h : Advance JobRow.Evolves now s s') {earlier : Int} (hs : InOrder earlier s)
    (hnow : earlier ≤ now) : InOrder now s' := by
  have hpast : ∀ r ∈ s'.jobs.rows, r.createdAt ≤ now := by
    intro r' hr'
    obtain ⟨r, hr, hevolves⟩ | hfresh := h.exists_before hr'
    · rw [hevolves.createdAt_eq]
      exact le_trans (hs.past r hr) hnow
    · exact le_of_eq hfresh.createdAt
  refine ⟨?_, hpast⟩
  obtain ⟨g, new, hrows, hevolves, hnew⟩ := h
  rw [hrows] at hpast ⊢
  rw [List.pairwise_append, List.pairwise_map]
  refine ⟨?_, ?_, ?_⟩
  · apply hs.created.imp_of_mem
    intro r r' hr hr' hle
    rwa [(hevolves r hr).createdAt_eq, (hevolves r' hr').createdAt_eq]
  · apply List.pairwise_of_forall_mem_list
    intro r hr r' hr'
    rw [(hnew r hr).createdAt, (hnew r' hr').createdAt]
  · intro r hr r' hr'
    rw [(hnew r' hr').createdAt]
    exact hpast r (List.mem_append_left _ hr)

theorem inOrder_after (calls : List Call) (hclock : (calls.map Call.now).Pairwise (· ≤ ·)) :
    ∀ s earlier, InOrder earlier s → (∀ c ∈ calls, earlier ≤ c.now) →
      ∃ now, InOrder now (after (perform py) s calls) := by
  induction calls with
  | nil => exact fun s earlier hs _ => ⟨earlier, hs⟩
  | cons c calls ih =>
      intro s earlier hs hlater
      rw [List.map_cons, List.pairwise_cons] at hclock
      apply ih hclock.2 _ c.now
      · exact (advance_perform py s c).inOrder hs (hlater c List.mem_cons_self)
      · intro c' hc'
        exact hclock.1 c'.now (List.mem_map_of_mem hc')

/-- Jobs created in the order of their rows are handed out in that order. -/
theorem oldestQueued_eq (h : InOrder now s) :
    s.oldestQueued = s.jobs.rows.find? fun r => r.status = .queued := by
  have hkeys : s.jobs.rows.Pairwise fun r r' => r.queueKey ≤ r'.queueKey := by
    apply (h.created.and s.ordered).imp
    intro r r' hr
    rw [JobRow.queueKey, JobRow.queueKey, Prod.Lex.toLex_le_toLex]
    have hcreated : r.createdAt ≤ r'.createdAt := hr.1
    have hid : r.id < r'.id := hr.2
    simp only
    omega
  unfold Store.oldestQueued
  rw [sortBy_eq_self (hkeys.sublist List.filter_sublist), List.head?_filter]

/-! ## The lifecycle -/

end

end TraxMania.RemoteTest
