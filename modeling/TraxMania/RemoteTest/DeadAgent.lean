import TraxMania.RemoteTest.Server
import TraxMania.RemoteTest.Lifecycle

/-
  A dead agent can't hold a job forever: the sweep finds every job in the hands of an agent, as long
  as no status post has taken a job out of the queue.
-/

namespace TraxMania.RemoteTest

open Lib Lib.Transition

/-! ## Jobs in the hands of an agent -/

/-- The job is in the hands of an agent. -/
def JobRow.Active (r : JobRow) : Prop := r.status = .claimed ∨ r.status = .running

instance JobRow.decidableActive (r : JobRow) : Decidable r.Active :=
  inferInstanceAs (Decidable (_ ∨ _))

/-- An active job has an agent, and a time from which the sweep counts. -/
def JobRow.Held (r : JobRow) : Prop := r.Active → r.agentId.isSome ∧ r.claimedAt.isSome

/-- All active jobs of the store have an agent and a time. -/
def Held (s : Store) : Prop := ∀ r ∈ s.jobs.rows, r.Held

namespace JobRow

variable {r : JobRow}

theorem held_claim (now : Int) (agentId : String) : (r.claim now agentId).Held :=
  fun _ => ⟨rfl, rfl⟩

theorem held_sweep (now : Int) : (r.sweep now).Held := by
  intro h
  obtain h | h := h
  · cases h
  · cases h

/-- Every move of the graph but the one from the queue into a claim keeps what an active job has. -/
theorem held_move {now : Int} {toStatus : JobStatus} {detail reportJson : Option String}
    (h : r.Held) (hallowed : toStatus ∈ r.status.allowed)
    (hclaim : ¬ (r.status = .queued ∧ toStatus = .claimed)) :
    (r.move now toStatus detail reportJson).Held := by
  intro hactive
  apply h
  unfold Active at hactive ⊢
  have hto : toStatus = .claimed ∨ toStatus = .running := hactive
  cases hstatus : r.status <;> rw [hstatus] at hallowed hclaim
  case queued =>
    obtain hto | hto := hto
    · exact absurd ⟨rfl, hto⟩ hclaim
    · rw [hto] at hallowed
      exact absurd hallowed (by decide)
  case claimed => exact .inl rfl
  case running => exact .inr rfl
  all_goals cases hallowed

end JobRow

section

variable (py : ServerPython) (cfg : ServerConfig)

/-- The calls of the store that a request makes. -/
def storeCalls (request : Request) : List Call :=
  if authorised cfg request.authorization then
    match request.endpoint with
    | .enqueueJob db now existing form =>
      match jobForm py form with
      | .error _ => []
      | .ok (data, runId, metadata, timeoutSeconds) =>
        [.enqueue db now existing cfg.artifactsRoot runId (some data) metadata timeoutSeconds]
    | .claimNextJob sweepDb claimDb sweepNow claimNow agentId =>
      if stripText agentId = "" then []
      else if sweepDb = .answers then
        [.sweepTimeouts sweepDb sweepNow, .claimNext claimDb claimNow (stripText agentId)]
      else [.sweepTimeouts sweepDb sweepNow]
    | .postStatus db now jobId body =>
      match statusPost py body with
      | .error _ => []
      | .ok post => [.transition db now jobId post.toStatus post.agentId post.detail post.report]
  else []

/-- The store after a request. -/
def next (s : Store) (request : Request) : Store := (serve py cfg s request).2

theorem sweepTimeouts_ok_iff (db : Database) (now : Int) (s : Store) :
    (∃ ids, (s.sweepTimeouts db now).1 = .ok ids) ↔ db = .answers := by
  cases db with
  | answers => exact iff_of_true ⟨_, rfl⟩ rfl
  | refuses => exact iff_of_false (fun ⟨_, h⟩ => nomatch h) (by decide)
  | failsLate => exact iff_of_false (fun ⟨_, h⟩ => nomatch h) (by decide)

/-- A request does to the store what its calls do. -/
theorem next_eq_after (s : Store) (request : Request) :
    next py cfg s request = after (perform py.toStorePython) s (storeCalls py cfg request) := by
  unfold next serve storeCalls
  by_cases hauth : authorised cfg request.authorization
  · rw [if_pos hauth, if_pos hauth]
    cases request.endpoint with
    | enqueueJob db now existing form =>
        simp only [enqueueJob]
        cases hform : jobForm py form with
        | error response => rfl
        | ok fields =>
            obtain ⟨data, runId, metadata, timeoutSeconds⟩ := fields
            simp only
            split <;> rfl
    | claimNextJob sweepDb claimDb sweepNow claimNow agentId =>
        simp only [claimNextJob]
        by_cases hagent : stripText agentId = ""
        · rw [if_pos hagent, if_pos hagent]
          rfl
        · rw [if_neg hagent, if_neg hagent]
          have hok := sweepTimeouts_ok_iff sweepDb sweepNow s
          cases hswept : (s.sweepTimeouts sweepDb sweepNow).1 with
          | error e =>
              have hdb : sweepDb ≠ .answers := by
                intro h
                obtain ⟨ids, hids⟩ := hok.mpr h
                rw [hswept] at hids
                cases hids
              rw [if_neg hdb]
              rfl
          | ok ids =>
              rw [if_pos (hok.mp ⟨ids, hswept⟩)]
              rfl
    | postStatus db now jobId body =>
        simp only [postStatus]
        cases hpost : statusPost py body with
        | error response => rfl
        | ok post =>
            simp only
            split <;> rfl
  · rw [if_neg hauth, if_neg hauth]
    rfl

/-! ## The post that claims -/

/-- The request is a status post that takes a job out of the queue into a claim: it is let in, its
    body passes the checks of the endpoint, and the store accepts it. -/
def ClaimsByPost (s : Store) (request : Request) : Prop :=
  authorised cfg request.authorization ∧
    match request.endpoint with
    | .postStatus db _ jobId body =>
      ∃ post, statusPost py body = .ok post ∧ post.toStatus = .claimed ∧ db ≠ .refuses ∧
        ∃ r ∈ s.jobs.rows, r.id = jobId ∧ r.status = .queued ∧
          ∃ values, Store.prepareMove py.toStorePython r .claimed post.agentId post.detail
            post.report = .ok values
    | _ => False

/-- What active jobs have is kept from a row to its successor. -/
def KeepsHeld (r r' : JobRow) : Prop := r.Held → r'.Held

theorem Advance.held {now : Int} {s s' : Store} (h : Advance KeepsHeld now s s') (hs : Held s) :
    Held s' := by
  intro r' hr'
  obtain ⟨r, hr, hkeeps⟩ | hfresh := h.exists_before hr'
  · exact hkeeps (hs r hr)
  · intro hactive
    rw [JobRow.Active, hfresh.status] at hactive
    obtain h | h := hactive
    · cases h
    · cases h

theorem held_transition {s : Store} (hs : Held s) (db : Database) (now jobId : Int)
    (post : StatusPost)
    (hpost : ¬ (post.toStatus = .claimed ∧ db ≠ .refuses ∧ ∃ r ∈ s.jobs.rows, r.id = jobId ∧
      r.status = .queued ∧ ∃ values, Store.prepareMove py.toStorePython r .claimed post.agentId
        post.detail post.report = .ok values)) :
    Held (s.transition py.toStorePython db now jobId post.toStatus post.agentId post.detail
      post.report).2 := by
  by_cases hdb : db = .refuses
  · unfold Store.transition
    rw [if_pos hdb]
    exact hs
  · suffices hadvance : Advance KeepsHeld now s (s.transition py.toStorePython db now jobId
        post.toStatus post.agentId post.detail post.report).2 from hadvance.held hs
    apply Store.advance_transition (fun r h => h)
    intro r hr hid values hvalues hheld
    apply JobRow.held_move hheld (Store.allowed_of_prepareMove hvalues)
    rintro ⟨hqueued, hclaimed⟩
    rw [hclaimed] at hvalues
    exact hpost ⟨hclaimed, hdb, r, hr, hid, hqueued, values, hvalues⟩

/-- Only a status post that claims leaves an active job without an agent. -/
theorem held_next {s : Store} (hs : Held s) {request : Request}
    (hrequest : ¬ ClaimsByPost py cfg s request) : Held (next py cfg s request) := by
  rw [next_eq_after]
  unfold storeCalls
  by_cases hauth : authorised cfg request.authorization
  · rw [if_pos hauth]
    unfold ClaimsByPost at hrequest
    cases hendpoint : request.endpoint with
    | enqueueJob db now existing form =>
        simp only
        split
        · exact hs
        · exact (Store.advance_enqueue (fun r h => h) existing _ _ _ _ _).held hs
    | claimNextJob sweepDb claimDb sweepNow claimNow agentId =>
        have hswept : Held (s.sweepTimeouts sweepDb sweepNow).2 :=
          (Store.advance_sweepTimeouts (fun r h => h) fun r _ _ => JobRow.held_sweep sweepNow).held hs
        simp only
        split
        · exact hs
        · split
          · exact (Store.advance_claimNext (fun r h => h) _ fun r _ _ =>
              JobRow.held_claim claimNow _).held hswept
          · exact hswept
    | postStatus db now jobId body =>
        simp only
        cases hpost : statusPost py body with
        | error response => exact hs
        | ok post =>
            apply held_transition py hs db now jobId post
            rintro ⟨hclaimed, hrest⟩
            apply hrequest
            rw [hendpoint]
            exact ⟨hauth, post, hpost, hclaimed, hrest⟩
  · rw [if_neg hauth]
    exact hs

/-! ## Jobs in the queue -/

/-- A queued job has never been handed out. -/
def Untouched (s : Store) : Prop :=
  ∀ r ∈ s.jobs.rows, r.status = .queued → r.agentId = none ∧ r.claimedAt = none

theorem Advance.untouched {now : Int} {s s' : Store} (h : Advance JobRow.Evolves now s s')
    (hs : Untouched s) : Untouched s' := by
  intro r' hr' hqueued
  obtain ⟨r, hr, hevolves⟩ | hfresh := h.exists_before hr'
  · have hsame := hevolves.eq_of_queued hqueued
    rw [hsame] at hqueued ⊢
    exact hs r hr hqueued
  · exact ⟨hfresh.agentId, hfresh.claimedAt⟩

theorem untouched_after (calls : List Call) :
    ∀ s, Untouched s → Untouched (after (perform py.toStorePython) s calls) := by
  induction calls with
  | nil => exact fun s hs => hs
  | cons c calls ih => exact fun s hs => ih _ ((advance_perform _ s c).untouched hs)

theorem untouched_next {s : Store} (hs : Untouched s) (request : Request) :
    Untouched (next py cfg s request) := by
  rw [next_eq_after]
  exact untouched_after py _ s hs

/-- A job that a status post has claimed has no agent. -/
theorem not_held_next {s : Store} (hs : Untouched s) {request : Request}
    (hrequest : ClaimsByPost py cfg s request) : ¬ Held (next py cfg s request) := by
  obtain ⟨hauth, hpost⟩ := hrequest
  cases hendpoint : request.endpoint with
  | enqueueJob db now existing form =>
      rw [hendpoint] at hpost
      exact hpost.elim
  | claimNextJob sweepDb claimDb sweepNow claimNow agentId =>
      rw [hendpoint] at hpost
      exact hpost.elim
  | postStatus db now jobId body =>
      rw [hendpoint] at hpost
      obtain ⟨post, hbody, hclaimed, hdb, r, hr, hid, hqueued, values, hvalues⟩ := hpost
      have hstore : next py cfg s request = s.moveRow now .claimed values.1 values.2 jobId := by
        rw [next_eq_after]
        unfold storeCalls
        rw [if_pos hauth, hendpoint]
        simp only [hbody, hclaimed]
        exact Store.transition_eq hr hid hdb hvalues
      intro hheld
      rw [hstore] at hheld
      have hagent : r.agentId.isSome := (hheld _ (Store.mem_moveRow hr hid) (.inl rfl)).1
      rw [(hs r hr hqueued).1] at hagent
      cases hagent

/-! ## The sweep -/

/-- The sweep of a `GET /jobs/next` more than the time-out after the claim times the job out. -/
def SweepFinds (s : Store) : Prop :=
  ∀ r ∈ s.jobs.rows, r.Active → ∃ claimedAt, r.claimedAt = some claimedAt ∧
    ∀ request sweepDb claimDb sweepNow claimNow agentId,
      authorised cfg request.authorization →
      request.endpoint = .claimNextJob sweepDb claimDb sweepNow claimNow agentId →
      stripText agentId ≠ "" → sweepDb ≠ .refuses → r.timeoutSeconds < sweepNow - claimedAt →
        ∃ r' ∈ (next py cfg s request).jobs.rows, r'.id = r.id ∧ r'.status = .timedOut

theorem sweepFinds_of_held {s : Store} (hs : Held s) : SweepFinds py cfg s := by
  intro r hr hactive
  obtain ⟨claimedAt, hclaimedAt⟩ := Option.isSome_iff_exists.mp (hs r hr hactive).2
  refine ⟨claimedAt, hclaimedAt, ?_⟩
  intro request sweepDb claimDb sweepNow claimNow agentId hauth hendpoint hagent hdb hlate
  have hstale : r.stale sweepNow := by
    unfold JobRow.stale
    rw [hclaimedAt]
    obtain h | h := hactive
    · simpa [h] using hlate
    · simpa [h] using hlate
  have hswept : r.sweep sweepNow ∈
      (perform py.toStorePython s (.sweepTimeouts sweepDb sweepNow)).jobs.rows :=
    Store.mem_sweepTimeouts hr hstale hdb
  refine ⟨r.sweep sweepNow, ?_, rfl, rfl⟩
  rw [next_eq_after]
  unfold storeCalls
  rw [if_pos hauth, hendpoint]
  simp only [if_neg hagent]
  split
  · have hkept := (advance_perform py.toStorePython _
      (.claimNext claimDb claimNow (stripText agentId))).frozen hswept rfl
    rw [after_cons, after_cons, after_nil]
    exact hkept
  · exact hswept

/-- In every run of requests: active jobs always have an agent and a time, and the sweep finds them,
    exactly when no request of the run is a status post that claims a queued job. -/
theorem held_throughout_iff (requests : List Request) :
    (∀ before, before <+: requests →
      Held (after (next py cfg) .empty before) ∧
        SweepFinds py cfg (after (next py cfg) .empty before)) ↔
    Steps (fun s request => ¬ ClaimsByPost py cfg s request) (next py cfg) .empty requests := by
  have hboth : ∀ s, Held s ∧ SweepFinds py cfg s ↔ Held s := fun s =>
    and_iff_left_of_imp (sweepFinds_of_held py cfg)
  simp only [hboth]
  apply forall_prefix_iff_steps (J := Untouched)
  · exact fun s request hs => untouched_next py cfg hs request
  · intro s request huntouched hs
    constructor
    · intro hheld hclaims
      exact not_held_next py cfg huntouched hclaims hheld
    · exact held_next py cfg hs
  · intro r hr
    cases hr
  · intro r hr
    cases hr

end

/-! ## A job without an agent -/

/-- Functions that read the texts of the requests below. -/
def plainPython : ServerPython where
  dumps _ := .ok "\x7b\x7d"
  loads _ := .ok (.obj [])
  sha256 _ := "00"
  repr _ := ""
  columnText _ := .error .typeError
  intOfText text := if text = "300" then some 300 else none
  errorText _ := ""

/-- A server with the token `t`. -/
def plainServer : ServerConfig := ⟨"artifacts", some "t", false⟩

/-- A job comes in at time 0 with the default time-out, and a post claims it at time 1. -/
def claimedByPost : List Request :=
  [⟨"Bearer t", .enqueueJob .answers 0 (fun _ => none) ⟨some [1], some "run", none, none⟩⟩,
    ⟨"Bearer t", .postStatus .answers 1 1 (.obj [("status", .str "claimed")])⟩]

/-- Another agent asks for work at time 1000000. -/
def lateRequest : Request := ⟨"Bearer t", .claimNextJob .answers .answers 1000000 1000000 "agent-2"⟩

/-- The job is claimed by nobody, and no sweep ends it. -/
theorem claimed_by_nobody :
    let s := after (next plainPython plainServer) .empty claimedByPost
    (∃ r ∈ s.jobs.rows, r.status = .claimed ∧ r.agentId = none ∧ r.claimedAt = none) ∧
      ∃ r ∈ (next plainPython plainServer s lateRequest).jobs.rows, r.status = .claimed := by
  decide +kernel

end TraxMania.RemoteTest
