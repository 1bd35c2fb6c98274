import TraxMania.Lib.Paths
import TraxMania.RemoteTest.AgentLoop

/-
  Where the agent stages an artifact: the run id that a client posts goes through the queue as it
  is, and becomes a path in the inbox of the agent.
-/

namespace TraxMania.RemoteTest

open TraxMania.Generation TraxMania.Generation.Llm Lib Lib.Outcome Lib.Transition Lib.Paths

/-! ## From the server to the agent -/

/-- `to_agent_dict(artifact_url)`. -/
def Job.toAgentDict (artifactUrl : String) (job : Job) : List (String × Json) :=
  [("id", .int job.id),
    ("run_id", .str job.runId),
    ("status", .str job.status.value),
    ("artifact_url", .str artifactUrl),
    ("artifact_size", .int job.artifactSize),
    ("artifact_sha256", .str job.artifactSha256),
    ("timeout_seconds", .int job.timeoutSeconds),
    ("metadata", .obj job.metadata)]

/-- `ai_inbox_dir / f"{job.run_id}.Map.Gbx"`. -/
def inboxMap (flavour : Flavour) (aiInboxDir : PurePath) (job : ClaimedJob) : PurePath :=
  flavour.join aiInboxDir (flavour.parse (job.runId.toList ++ ".Map.Gbx".toList))

/-- The client reads every job that the server hands out, with the run id as it is. -/
theorem readClaim_toAgentDict (py : AgentPython) (artifactUrl : String) (job : Job) :
    readClaim py (.obj (job.toAgentDict artifactUrl)) =
      .ok ⟨job.id, job.runId, artifactUrl, job.artifactSize, job.artifactSha256,
        job.timeoutSeconds, job.metadata.map fun kv => (.str kv.1, kv.2)⟩ := by
  have hmetadata : claimMetadata (.obj (job.toAgentDict artifactUrl)) =
      .ok (job.metadata.map fun kv => (.str kv.1, kv.2)) := by
    cases h : job.metadata <;> simp [claimMetadata, Job.toAgentDict, field, truthy, dictOf, h,
      List.lookup_cons]
  unfold readClaim
  rw [hmetadata]
  rfl

/-! ## The run id in the queue -/

/-- The run id of a call that inserts a row. -/
def Call.runId : Call → Option String
  | .enqueue _ _ _ _ runId _ _ _ => some runId
  | _ => none

section

variable {py : StorePython} {s : Store}

theorem runId_of_updateJobs {p : JobRow → Bool} {f : JobRow → JobRow} {hf : ∀ r, (f r).id = r.id}
    (hrunId : ∀ r, (f r).runId = r.runId) {r' : JobRow}
    (hr' : r' ∈ (s.updateJobs p f hf).jobs.rows) : ∃ r ∈ s.jobs.rows, r.runId = r'.runId := by
  obtain ⟨r, hr, rfl⟩ := List.mem_map.mp hr'
  refine ⟨r, hr, ?_⟩
  split
  · exact (hrunId r).symm
  · rfl

/-- A row has the run id that a row had before the call, or that the call brings. -/
theorem runId_perform {c : Call} {r' : JobRow} (hr' : r' ∈ (perform py s c).jobs.rows) :
    (∃ r ∈ s.jobs.rows, r.runId = r'.runId) ∨ c.runId = some r'.runId := by
  cases c with
  | enqueue db now existing root runId artifact metadata timeoutSeconds =>
    change r' ∈ (s.enqueue py db now existing root runId artifact metadata
      timeoutSeconds).2.jobs.rows at hr'
    unfold Store.enqueue at hr'
    split at hr'
    · exact .inl ⟨r', hr', rfl⟩
    · split at hr'
      · exact .inl ⟨r', hr', rfl⟩
      · split at hr'
        · exact .inl ⟨r', hr', rfl⟩
        · obtain hr' | hr' := List.mem_append.mp hr'
          · exact .inl ⟨r', hr', rfl⟩
          · rw [List.mem_singleton.mp hr']
            exact .inr rfl
  | claimNext db now agentId =>
    left
    change r' ∈ (s.claimNext py db now agentId).2.jobs.rows at hr'
    unfold Store.claimNext at hr'
    split at hr'
    · exact ⟨r', hr', rfl⟩
    · split at hr'
      · exact ⟨r', hr', rfl⟩
      · split at hr'
        · exact ⟨r', hr', rfl⟩
        · exact runId_of_updateJobs (by intro r; rfl) hr'
  | transition db now jobId toStatus agentId detail report =>
    left
    change r' ∈ (s.transition py db now jobId toStatus agentId detail report).2.jobs.rows at hr'
    unfold Store.transition at hr'
    split at hr'
    · exact ⟨r', hr', rfl⟩
    · split at hr'
      · exact ⟨r', hr', rfl⟩
      · split at hr'
        · exact ⟨r', hr', rfl⟩
        · exact runId_of_updateJobs (by intro r; rfl) hr'
  | sweepTimeouts db now =>
    left
    change r' ∈ (s.sweepTimeouts db now).2.jobs.rows at hr'
    unfold Store.sweepTimeouts at hr'
    split at hr'
    · exact ⟨r', hr', rfl⟩
    · rw [Store.sweep_rows] at hr'
      obtain ⟨r, hr, rfl⟩ := List.mem_map.mp hr'
      refine ⟨r, hr, ?_⟩
      split <;> rfl

theorem runId_after (calls : List Call) {r' : JobRow}
    (hr' : r' ∈ (after (perform py) s calls).jobs.rows) :
    (∃ r ∈ s.jobs.rows, r.runId = r'.runId) ∨ ∃ c ∈ calls, c.runId = some r'.runId := by
  induction calls generalizing s with
  | nil => exact .inl ⟨r', hr', rfl⟩
  | cons c calls ih =>
    obtain ⟨r, hr, hrunId⟩ | ⟨c', hc', hrunId⟩ := ih hr'
    · rw [← hrunId]
      obtain hbefore | hcall := runId_perform hr
      · exact .inl hbefore
      · exact .inr ⟨c, List.mem_cons_self, hcall⟩
    · exact .inr ⟨c', List.mem_cons_of_mem _ hc', hrunId⟩

theorem runId_of_rowToJob {r : JobRow} {job : Job} (h : rowToJob py r = .ok job) :
    job.runId = r.runId := by
  obtain ⟨metadata, -, h⟩ := bind_eq_ok.mp h
  obtain ⟨report, -, h⟩ := bind_eq_ok.mp h
  rw [← Except.ok.inj h]

theorem runId_of_get {jobId : Int} {job : Job} (h : s.get py jobId = .ok (some job)) :
    ∃ r ∈ s.jobs.rows, r.runId = job.runId := by
  unfold Store.get at h
  cases hfind : s.jobs.find jobId with
  | none =>
    rw [hfind] at h
    cases h
  | some r =>
    cases hjob : rowToJob py r with
    | error e =>
      simp only [hfind, hjob] at h
      cases h
    | ok job' =>
      simp only [hfind, hjob] at h
      obtain rfl := Option.some.inj (Except.ok.inj h)
      exact ⟨r, (Table.find_eq_some.mp hfind).1, (runId_of_rowToJob hjob).symm⟩

/-- A claim hands out the run id of a row. -/
theorem runId_of_claimNext {db : Database} {now : Int} {agentId : String} {job : Job}
    (h : (s.claimNext py db now agentId).1 = .ok (some job)) :
    ∃ r ∈ s.jobs.rows, r.runId = job.runId := by
  unfold Store.claimNext at h
  split at h
  · cases h
  · split at h
    · cases h
    · split at h
      · cases h
      · next r holdest =>
        unfold Database.finish at h
        split at h
        · cases h
        · obtain ⟨r', hr', hrunId⟩ := runId_of_get h
          rw [← hrunId]
          exact runId_of_updateJobs (by intro r; rfl) hr'

end

/-! ## The run id of a form -/

section

variable {py : ServerPython} {cfg : ServerConfig}

/-- `POST /jobs` accepts the form of the request, with this run id. -/
def Accepts (py : ServerPython) (request : Request) (runId : String) : Prop :=
  ∃ db now existing form, request.endpoint = .enqueueJob db now existing form ∧
    ∃ data metadata timeoutSeconds,
      jobForm py form = .ok (data, runId, metadata, timeoutSeconds)

theorem accepts_of_storeCalls {request : Request} {c : Call} {runId : String}
    (hc : c ∈ storeCalls py cfg request) (hrunId : c.runId = some runId) :
    Accepts py request runId := by
  unfold storeCalls at hc
  split at hc
  · cases hendpoint : request.endpoint with
    | enqueueJob db now existing form =>
      simp only [hendpoint] at hc
      cases hform : jobForm py form with
      | error response => simp [hform] at hc
      | ok fields =>
        obtain ⟨data, runId', metadata, timeoutSeconds⟩ := fields
        simp only [hform, List.mem_singleton] at hc
        rw [hc] at hrunId
        obtain rfl := Option.some.inj hrunId
        exact ⟨db, now, existing, form, hendpoint, data, metadata, timeoutSeconds, hform⟩
    | claimNextJob sweepDb claimDb sweepNow claimNow agentId =>
      simp only [hendpoint] at hc
      have hnone : c.runId = none := by
        split at hc
        · cases hc
        · split at hc
          · obtain rfl | rfl : c = .sweepTimeouts sweepDb sweepNow ∨
                c = .claimNext claimDb claimNow (stripText agentId) := by
              simpa using hc
            · rfl
            · rfl
          · rw [List.mem_singleton.mp hc]
            rfl
      rw [hnone] at hrunId
      cases hrunId
    | postStatus db now jobId body =>
      simp only [hendpoint] at hc
      split at hc
      · cases hc
      · rw [List.mem_singleton.mp hc] at hrunId
        cases hrunId
  · cases hc

/-- After a run, every row has the run id of a form that was accepted. -/
theorem accepts_after (requests : List Request) {s : Store} {r' : JobRow}
    (hr' : r' ∈ (after (next py cfg) s requests).jobs.rows) :
    (∃ r ∈ s.jobs.rows, r.runId = r'.runId) ∨
      ∃ request ∈ requests, Accepts py request r'.runId := by
  induction requests generalizing s with
  | nil => exact .inl ⟨r', hr', rfl⟩
  | cons request requests ih =>
    obtain ⟨r, hr, hrunId⟩ | ⟨request', hmem, haccepts⟩ := ih hr'
    · rw [next_eq_after] at hr
      rw [← hrunId]
      obtain hbefore | ⟨c, hc, hcall⟩ := runId_after _ hr
      · exact .inl hbefore
      · exact .inr ⟨request, List.mem_cons_self, accepts_of_storeCalls hc hcall⟩
    · exact .inr ⟨request', List.mem_cons_of_mem _ hmem, haccepts⟩

/-- `GET /jobs/next` hands out the run id of a row. -/
theorem runId_of_claimNextJob {s : Store} {sweepDb claimDb : Database} {sweepNow claimNow : Int}
    {agentId : String} {job : Job}
    (h : (claimNextJob py sweepDb claimDb sweepNow claimNow agentId s).1 = .agentJob job) :
    ∃ r ∈ s.jobs.rows, r.runId = job.runId := by
  unfold claimNextJob at h
  split at h
  · cases h
  · dsimp only at h
    split at h
    · cases h
    · unfold claimResponse at h
      split at h
      · cases h
      · next claimed hclaim =>
        obtain rfl := Response.agentJob.inj h
        obtain ⟨r, hr, hrunId⟩ := runId_of_claimNext hclaim
        rw [← hrunId]
        have hsweep : r ∈ (perform py.toStorePython s (.sweepTimeouts sweepDb sweepNow)).jobs.rows :=
          hr
        obtain hbefore | hcall := runId_perform hsweep
        · exact hbefore
        · cases hcall
      · cases h

end

/-! ## The place of the artifact -/

/-- Where the agent runs. `lower` makes the spellings of a name equal. -/
inductive System where
  | posix
  | windows (lower : PyText.Text → PyText.Text)

/-- The paths of the system. -/
def System.flavour : System → Flavour
  | posix => Paths.posix
  | windows lower => Paths.windows lower

theorem suffix_free (system : System) :
    ∀ c ∈ ".Map.Gbx".toList, system.flavour.isMark c = false := by
  have hfree : (".Map.Gbx".toList.all fun c => !system.flavour.isMark c) = true := by
    cases system with
    | posix => rfl
    | windows lower => rfl
  intro c hc
  simpa using List.all_eq_true.mp hfree c hc

/-- In every run of the server: a job that it hands out has the run id of a form that it has
    accepted, the agent reads that run id as it is, and its artifact is staged directly in the inbox
    exactly when the directories in the run id lead back to the inbox. -/
theorem staged_in_inbox_iff (py : ServerPython) (cfg : ServerConfig) (apy : AgentPython)
    (system : System) (cwd : Cwd) (aiInboxDir : PurePath) (requests : List Request)
    (authorization : String) (sweepDb claimDb : Database) (sweepNow claimNow : Int)
    (agentId artifactUrl : String) (job : Job)
    (h : (serve py cfg (after (next py cfg) .empty requests)
      ⟨authorization, .claimNextJob sweepDb claimDb sweepNow claimNow agentId⟩).1 =
        .agentJob job) :
    ∃ claimed, readClaim apy (.obj (job.toAgentDict artifactUrl)) = .ok claimed ∧
      (∃ request ∈ requests, Accepts py request claimed.runId) ∧
      (system.flavour.DirectlyIn cwd (inboxMap system.flavour aiInboxDir claimed) aiInboxDir ↔
        system.flavour.LeadsBack cwd aiInboxDir
          (system.flavour.parse (claimed.runId.toList ++ ".Map.Gbx".toList))) := by
  refine ⟨_, readClaim_toAgentDict apy artifactUrl job, ?_, ?_⟩
  · unfold serve at h
    split at h
    · obtain ⟨r, hr, hrunId⟩ := runId_of_claimNextJob h
      show ∃ request ∈ requests, Accepts py request job.runId
      rw [← hrunId]
      obtain ⟨r', hr', -⟩ | hrequest := accepts_after requests hr
      · cases hr'
      · exact hrequest
    · cases h
  · exact Flavour.directlyIn_join_iff (suffix_free system) (by decide) aiInboxDir job.runId.toList

/-- A client enqueues a run. -/
def enqueueRun (runId : String) : Request :=
  ⟨"Bearer t", .enqueueJob .answers 0 (fun _ => none) ⟨some [1], some runId, none, none⟩⟩

/-- The job as it is handed out at time 1. -/
def handedOut (runId : String) : Job where
  id := 1
  runId := runId
  status := .claimed
  artifactPath := "00.Map.Gbx"
  artifactSize := 1
  artifactSha256 := "00"
  timeoutSeconds := 300
  createdAt := 0
  agentId := some "agent-1"
  claimedAt := some 1
  completedAt := none
  metadata := []
  report := none
  detail := none

/-- The inbox below the directory that the agent runs in. -/
def plainInbox : PurePath := ⟨[], false, ["Maps".toList, "AI-inbox".toList]⟩

def plainCwd : Cwd := ⟨[], fun _ => ["rig".toList]⟩

theorem run_staged :
    ∃ claimed, readClaim plainAgentPython (.obj ((handedOut "run").toAgentDict "url")) =
        .ok claimed ∧
      (∃ request ∈ [enqueueRun "run"], Accepts plainPython request claimed.runId) ∧
      (System.posix.flavour.DirectlyIn plainCwd
          (inboxMap System.posix.flavour plainInbox claimed) plainInbox ↔
        System.posix.flavour.LeadsBack plainCwd plainInbox
          (System.posix.flavour.parse (claimed.runId.toList ++ ".Map.Gbx".toList))) :=
  staged_in_inbox_iff plainPython plainServer plainAgentPython .posix plainCwd plainInbox
    [enqueueRun "run"] "Bearer t" .answers .answers 1 1 "agent-1" "url" (handedOut "run") rfl

/-- A run id that leads to the parent is accepted and handed out, and its artifact is staged beside
    the inbox. -/
theorem parent_run_id_escapes :
    (serve plainPython plainServer
        (after (next plainPython plainServer) .empty [enqueueRun "../x"])
        ⟨"Bearer t", .claimNextJob .answers .answers 1 1 "agent-1"⟩).1 =
      .agentJob (handedOut "../x") ∧
    ∃ claimed, readClaim plainAgentPython (.obj ((handedOut "../x").toAgentDict "url")) =
        .ok claimed ∧
      System.posix.flavour.locate plainCwd (inboxMap System.posix.flavour plainInbox claimed) =
        ⟨[], ["rig".toList, "Maps".toList, "x.Map.Gbx".toList]⟩ ∧
      ¬ System.posix.flavour.DirectlyIn plainCwd
        (inboxMap System.posix.flavour plainInbox claimed) plainInbox := by
  refine ⟨rfl, _, readClaim_toAgentDict _ _ _, by decide +kernel, ?_⟩
  rintro ⟨name, h⟩
  have hinbox : (System.posix.flavour.locate plainCwd plainInbox).names.length = 3 := by
    decide +kernel
  have hlength := congrArg (fun place => place.names.length) h
  simp only [List.length_append, List.length_singleton, hinbox] at hlength
  revert hlength
  decide +kernel

end TraxMania.RemoteTest
