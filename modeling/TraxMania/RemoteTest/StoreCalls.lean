import TraxMania.RemoteTest.Store

/-
  What each call of the job store does to the rows of its table.
-/

namespace TraxMania.RemoteTest

open TraxMania.Generation Lib Lib.Outcome Lib.SortBy

/-! ## What a call does to the rows -/

/-- A row as `enqueue` inserts it. -/
structure JobRow.Fresh (now : Int) (r : JobRow) : Prop where
  status : r.status = .queued
  completedAt : r.completedAt = none
  createdAt : r.createdAt = now
  agentId : r.agentId = none
  claimedAt : r.claimedAt = none
  reportJson : r.reportJson = none

/-- Every row becomes what `R` lets it become, and new rows are queued behind them. -/
def Advance (R : JobRow → JobRow → Prop) (now : Int) (s s' : Store) : Prop :=
  ∃ (g : JobRow → JobRow) (new : List JobRow), s'.jobs.rows = s.jobs.rows.map g ++ new ∧
    (∀ r ∈ s.jobs.rows, R r (g r)) ∧ ∀ r ∈ new, r.Fresh now

namespace Advance

variable {R : JobRow → JobRow → Prop} {now : Int} {s s' : Store}

/-- Every row is there afterwards, as `R` lets it be. -/
theorem exists_after (h : Advance R now s s') {r : JobRow} (hr : r ∈ s.jobs.rows) :
    ∃ r' ∈ s'.jobs.rows, R r r' := by
  obtain ⟨g, new, hrows, hR, -⟩ := h
  refine ⟨g r, ?_, hR r hr⟩
  rw [hrows]
  exact List.mem_append_left _ (List.mem_map_of_mem hr)

/-- Every row afterwards comes from one, or is new. -/
theorem exists_before (h : Advance R now s s') {r' : JobRow} (hr' : r' ∈ s'.jobs.rows) :
    (∃ r ∈ s.jobs.rows, R r r') ∨ r'.Fresh now := by
  obtain ⟨g, new, hrows, hR, hnew⟩ := h
  rw [hrows] at hr'
  obtain hr' | hr' := List.mem_append.mp hr'
  · obtain ⟨r, hr, rfl⟩ := List.mem_map.mp hr'
    exact .inl ⟨r, hr, hR r hr⟩
  · exact .inr (hnew r' hr')

end Advance

namespace Store

variable {R : JobRow → JobRow → Prop} {now : Int} {s s' : Store}

theorem advance_of_map {g : JobRow → JobRow} (hrows : s'.jobs.rows = s.jobs.rows.map g)
    (h : ∀ r ∈ s.jobs.rows, R r (g r)) : Advance R now s s' :=
  ⟨g, [], by simp [hrows], h, by simp⟩

theorem advance_refl (hsame : ∀ r, R r r) : Advance R now s s := by
  apply advance_of_map (g := id) (by simp)
  intro r hr
  exact hsame r

theorem advance_update (hsame : ∀ r, R r r) {p : JobRow → Bool} {f : JobRow → JobRow}
    (hf : ∀ r, (f r).id = r.id) (h : ∀ r ∈ s.jobs.rows, p r → R r (f r)) : Advance R now s (s.updateJobs p f hf) := by
  apply advance_of_map (Table.update_rows p f hf s.jobs)
  intro r hr
  split
  · next hp => exact h r hr hp
  · exact hsame r

theorem advance_insert (hsame : ∀ r, R r r) {row : Int → JobRow} (hrow : ∀ id, (row id).id = id)
    (h : ∀ id, (row id).Fresh now) : Advance R now s (s.insertJob row hrow) := by
  refine ⟨id, [row (s.sequence + 1)], by rw [List.map_id]; rfl, fun r _ => hsame r, ?_⟩
  intro r hr
  rw [List.mem_singleton.mp hr]
  exact h _

/-- A sweep writes the rows that it has selected, and no other. -/
theorem sweep_rows (now : Int) (s : Store) :
    ((s.staleIds now).foldl (fun s jobId => s.sweepRow now jobId) s).jobs.rows =
      s.jobs.rows.map fun r => if r.stale now then r.sweep now else r := by
  have hjobs : ∀ (ids : List Int) (s : Store),
      (ids.foldl (fun s jobId => s.sweepRow now jobId) s).jobs =
        ids.foldl (fun t k => t.update (fun r => r.id = k) (JobRow.sweep now) (sweep_id now)) s.jobs := by
    intro ids
    induction ids with
    | nil => exact fun s => rfl
    | cons k ids ih => exact fun s => ih (s.sweepRow now k)
  have hnodup : (s.staleIds now).Nodup := s.jobs.nodup.sublist (List.filter_sublist.map _)
  have hmem : ∀ r ∈ s.jobs.rows, r.id ∈ s.staleIds now ↔ r.stale now := by
    intro r hr
    unfold staleIds
    rw [List.mem_map]
    constructor
    · rintro ⟨r', hr', hid⟩
      rw [List.mem_filter] at hr'
      rw [← s.jobs.eq_of_key_eq hr'.1 hr hid]
      exact hr'.2
    · intro hstale
      exact ⟨r, List.mem_filter.mpr ⟨hr, hstale⟩, rfl⟩
  rw [hjobs, Table.rows_foldl_update _ _ _ hnodup]
  apply List.map_congr_left
  intro r hr
  simp only [hmem r hr]

end Store

theorem JobRow.status_of_stale {now : Int} {r : JobRow} (h : r.stale now) :
    r.status = .claimed ∨ r.status = .running := by
  unfold JobRow.stale at h
  simp only [Bool.and_eq_true, Bool.or_eq_true, decide_eq_true_eq] at h
  exact h.1

section

variable {py : StorePython} {R : JobRow → JobRow → Prop} {db : Database} {now : Int} {s : Store}

theorem rowToJob_eq_ok {r : JobRow} {job : Job} (h : rowToJob py r = .ok job) :
    job.id = r.id ∧ job.status = r.status ∧ job.agentId = r.agentId := by
  obtain ⟨metadata, -, h⟩ := bind_eq_ok.mp h
  obtain ⟨report, -, h⟩ := bind_eq_ok.mp h
  rw [← Except.ok.inj h]
  exact ⟨rfl, rfl, rfl⟩

namespace Store

theorem mem_of_oldestQueued {r : JobRow} (h : s.oldestQueued = some r) :
    r ∈ s.jobs.rows ∧ r.status = .queued := by
  have hmem := (head?_sortBy h).1
  rw [List.mem_filter, decide_eq_true_eq] at hmem
  exact hmem

theorem allowed_of_checkMove {row : JobRow} {toStatus : JobStatus} {agentId : Json}
    (h : checkMove py row toStatus agentId = .ok ()) : toStatus ∈ row.status.allowed := by
  by_contra hnot
  unfold checkMove at h
  rw [if_pos hnot] at h
  cases h

theorem allowed_of_prepareMove {row : JobRow} {toStatus : JobStatus} {agentId detail report : Json}
    {values : Option String × Option String}
    (h : prepareMove py row toStatus agentId detail report = .ok values) :
    toStatus ∈ row.status.allowed := by
  obtain ⟨u, hu, -⟩ := bind_eq_ok.mp h
  exact allowed_of_checkMove hu

/-! ## The calls -/

theorem advance_enqueue (hsame : ∀ r, R r r) (existing : String → Option (List UInt8)) (root runId : String)
    (artifact : Option (List UInt8)) (metadata : Json) (timeoutSeconds : Int) :
    Advance R now s
      (s.enqueue py db now existing root runId artifact metadata timeoutSeconds).2 := by
  unfold enqueue
  split
  · exact advance_refl hsame
  · split
    · exact advance_refl hsame
    · split
      · exact advance_refl hsame
      · exact advance_insert hsame (newRow_id _ _ _ _ _ _) fun id => ⟨rfl, rfl, rfl, rfl, rfl, rfl⟩

theorem advance_claimNext (hsame : ∀ r, R r r) (agentId : String)
    (hclaim : ∀ r, r.status = .queued → R r (r.claim now agentId)) :
    Advance R now s (s.claimNext py db now agentId).2 := by
  unfold claimNext
  split
  · exact advance_refl hsame
  · split
    · exact advance_refl hsame
    · split
      · exact advance_refl hsame
      · apply advance_update hsame
        intro r hr hp
        rw [Bool.and_eq_true, decide_eq_true_eq, decide_eq_true_eq] at hp
        exact hclaim r hp.2

theorem advance_transition (hsame : ∀ r, R r r) (jobId : Int) (toStatus : JobStatus)
    (agentId detail report : Json)
    (hmove : ∀ r ∈ s.jobs.rows, r.id = jobId → ∀ values,
      prepareMove py r toStatus agentId detail report = .ok values →
        R r (r.move now toStatus values.1 values.2)) :
    Advance R now s (s.transition py db now jobId toStatus agentId detail report).2 := by
  unfold transition
  split
  · exact advance_refl hsame
  · split
    · exact advance_refl hsame
    · next row hrow =>
      obtain ⟨hmem, hid⟩ := Table.find_eq_some.mp hrow
      split
      · exact advance_refl hsame
      · next detailText reportJson hprepare =>
        apply advance_update hsame
        intro r hr hp
        rw [decide_eq_true_eq] at hp
        rw [s.jobs.eq_of_key_eq hr hmem (hp.trans hid.symm)]
        exact hmove row hmem hid _ hprepare

/-- A transition that passes its checks writes the row of the job. -/
theorem transition_eq {jobId : Int} {toStatus : JobStatus} {agentId detail report : Json}
    {r : JobRow} {values : Option String × Option String} (hr : r ∈ s.jobs.rows) (hid : r.id = jobId)
    (hdb : db ≠ .refuses)
    (hvalues : prepareMove py r toStatus agentId detail report = .ok values) :
    (s.transition py db now jobId toStatus agentId detail report).2 =
      s.moveRow now toStatus values.1 values.2 jobId := by
  unfold transition
  rw [if_neg hdb, Table.find_eq_some.mpr ⟨hr, hid⟩]
  simp only [hvalues]

theorem mem_moveRow {jobId : Int} {toStatus : JobStatus} {detail reportJson : Option String}
    {r : JobRow} (hr : r ∈ s.jobs.rows) (hid : r.id = jobId) :
    r.move now toStatus detail reportJson ∈
      (s.moveRow now toStatus detail reportJson jobId).jobs.rows := by
  apply List.mem_map.mpr
  exact ⟨r, hr, if_pos (decide_eq_true hid)⟩

/-- A sweep that the database does not refuse times out every stale row. -/
theorem mem_sweepTimeouts {r : JobRow} (hr : r ∈ s.jobs.rows) (hstale : r.stale now)
    (hdb : db ≠ .refuses) : r.sweep now ∈ (s.sweepTimeouts db now).2.jobs.rows := by
  unfold sweepTimeouts
  rw [if_neg hdb, sweep_rows]
  apply List.mem_map.mpr
  exact ⟨r, hr, if_pos hstale⟩

theorem advance_sweepTimeouts (hsame : ∀ r, R r r)
    (hsweep : ∀ r, r.stale now → R r (r.sweep now)) : Advance R now s (s.sweepTimeouts db now).2 := by
  unfold sweepTimeouts
  split
  · exact advance_refl hsame
  · apply advance_of_map (sweep_rows now s)
    intro r hr
    split
    · next h => exact hsweep r h
    · exact hsame r

end Store

end

end TraxMania.RemoteTest
