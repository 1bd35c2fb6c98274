import TraxMania.RemoteTest.Rig

/-
  What becomes of a telemetry report once the agent has read it: it is on the server or still in its
  file exactly when the server takes the one post that carries it, or the file has survived the ack.
-/

namespace TraxMania.RemoteTest

open TraxMania.Generation.Llm Lib Lib.Outcome Lib.Transition

section

variable (spy : ServerPython) (scfg : ServerConfig) (py : AgentPython) (cfg : RigConfig)

/-! ## Reports -/

/-- The row of the job carries the report. -/
def Carried (store : Store) (jobId : Int) (report : TelemetryReport) : Prop :=
  ∃ r ∈ store.jobs.rows, r.id = jobId ∧
    ∃ text, spy.dumps (.obj report.toReportDict) = .ok text ∧ r.reportJson = some text

/-- The report is on the server, or the file of the job is there. -/
def Kept (s : Rig) (jobId : Int) (report : TelemetryReport) : Prop :=
  Carried spy s.store jobId report ∨ (s.out jobId).isSome

/-- The server takes the post: it is let in, acts on it, and the job is claimed or running, with this
    agent or with none. -/
def Accepted (store : Store) (x : Exchange) (jobId : Int) (report : TelemetryReport) : Prop :=
  authorised scfg cfg.authorization ∧
    (∃ db now, x.served = some (db, now) ∧ db ≠ .refuses) ∧
    ∃ r ∈ store.jobs.rows, r.id = jobId ∧ r.Active ∧
      (r.agentId = none ∨ r.agentId = some cfg.agentId) ∧
      ∃ text, spy.dumps (.obj report.toReportDict) = .ok text

/-- A post with the report is no step of the loss: the file has survived the ack, the server has the
    report already, or it takes the post. -/
def Delivers (s : Rig) (event : RigEvent) : Prop :=
  match s.phase, event with
  | .shipping job report, .ship x =>
    (s.out job.id).isSome ∨ Carried spy s.store job.id report ∨
      Accepted spy scfg cfg s.store x job.id report
  | _, _ => True

/-- The agent has read the report of the job, and is not yet done with it. -/
def Phase.HasRead (job : ClaimedJob) (report : TelemetryReport) (phase : Phase) : Prop :=
  phase = .acking job report ∨ phase = .shipping job report

/-- The step ends the work on a report only with the report kept. -/
def KeepsReport (s s' : Rig) : Prop :=
  ∀ job report, s.phase.HasRead job report → s'.phase = .idle → Kept spy s' job.id report

/-! ## The post -/

/-- A report is never empty, so that it is written. -/
theorem reportText_reportDict (report : TelemetryReport) :
    Store.reportText spy.toStorePython (.obj report.toReportDict) =
      match spy.dumps (.obj report.toReportDict) with
      | .ok text => .ok (some text)
      | .error e => .error (.python e) := rfl

/-- The endpoint understands the post. -/
theorem statusPost_complete (detail : String) (report : TelemetryReport) :
    statusPost spy (statusBody cfg "complete" detail (some report.toReportDict)) =
      .ok ⟨.complete, .str cfg.agentId, .str detail, .obj report.toReportDict⟩ := by
  unfold statusPost statusBody
  simp [truthy, field, JobStatus.ofValue, JobStatus.value, List.lookup_cons]

theorem complete_allowed_iff (r : JobRow) : .complete ∈ r.status.allowed ↔ r.Active := by
  unfold JobRow.Active
  cases r.status <;> decide

theorem foreign_str_iff (r : JobRow) :
    Store.foreign r (.str cfg.agentId) = false ↔
      r.agentId = none ∨ r.agentId = some cfg.agentId := by
  unfold Store.foreign
  cases r.agentId with
  | none => exact iff_of_true rfl (.inl rfl)
  | some owner =>
      show decide (cfg.agentId ≠ owner) = false ↔ some owner = none ∨ some owner = some cfg.agentId
      rw [decide_eq_false_iff_not, not_not]
      constructor
      · intro h
        exact .inr (by rw [h])
      · intro h
        exact (Option.some.inj (h.resolve_left nofun)).symm

/-- The store accepts the post for a row exactly when the job is active and the agent's or nobody's,
    and the report can be written. -/
theorem prepareMove_complete_iff (r : JobRow) (detail : String) (report : TelemetryReport)
    (values : Option String × Option String) :
    Store.prepareMove spy.toStorePython r .complete (.str cfg.agentId) (.str detail)
        (.obj report.toReportDict) = .ok values ↔
      r.Active ∧ (r.agentId = none ∨ r.agentId = some cfg.agentId) ∧
        ∃ text, spy.dumps (.obj report.toReportDict) = .ok text ∧
          values = (some detail, some text) := by
  have hcheck : Store.checkMove spy.toStorePython r .complete (.str cfg.agentId) = .ok () ↔
      r.Active ∧ (r.agentId = none ∨ r.agentId = some cfg.agentId) := by
    rw [← complete_allowed_iff, ← foreign_str_iff cfg]
    unfold Store.checkMove
    by_cases hallowed : .complete ∈ r.status.allowed
    · rw [if_neg (not_not.mpr hallowed)]
      cases Store.foreign r (.str cfg.agentId) with
      | true => exact iff_of_false (fun h => nomatch h) (fun h => nomatch h.2)
      | false => exact iff_of_true rfl ⟨hallowed, rfl⟩
    · rw [if_pos hallowed]
      exact iff_of_false (fun h => nomatch h) fun h => hallowed h.1
  constructor
  · intro h
    obtain ⟨u, hu, h⟩ := bind_eq_ok.mp h
    obtain ⟨reportJson, hreport, h⟩ := bind_eq_ok.mp h
    obtain ⟨hactive, hagent⟩ := hcheck.mp hu
    rw [reportText_reportDict] at hreport
    cases hdumps : spy.dumps (.obj report.toReportDict) with
    | error e =>
        rw [hdumps] at hreport
        cases hreport
    | ok text =>
        rw [hdumps] at hreport
        rw [← Except.ok.inj hreport] at h
        exact ⟨hactive, hagent, text, rfl, (Except.ok.inj h).symm⟩
  · rintro ⟨hactive, hagent, text, hdumps, rfl⟩
    unfold Store.prepareMove
    rw [hcheck.mpr ⟨hactive, hagent⟩, ok_bind, reportText_reportDict, hdumps]
    rfl

/-! ## What a post does -/

variable {spy scfg cfg}

/-- A post that is let in is a transition. -/
theorem next_complete (store : Store) (db : Database) (now jobId : Int) (detail : String)
    (report : TelemetryReport) (hauth : authorised scfg cfg.authorization) :
    next spy scfg store ⟨cfg.authorization, .postStatus db now jobId
        (statusBody cfg "complete" detail (some report.toReportDict))⟩ =
      (store.transition spy.toStorePython db now jobId .complete (.str cfg.agentId) (.str detail)
        (.obj report.toReportDict)).2 := by
  rw [next_eq_after]
  unfold storeCalls
  rw [if_pos hauth]
  simp only [statusPost_complete]
  rfl

/-- A post that is not let in does nothing. -/
theorem next_unauthorised (store : Store) (request : Request)
    (hauth : ¬ authorised scfg request.authorization) : next spy scfg store request = store := by
  rw [next_eq_after]
  unfold storeCalls
  rw [if_neg hauth]
  rfl

theorem carried_of_accepted {store : Store} {x : Exchange} {jobId : Int} {report : TelemetryReport}
    {detail : String} (h : Accepted spy scfg cfg store x jobId report) :
    Carried spy (post spy scfg cfg x jobId
      (statusBody cfg "complete" detail (some report.toReportDict)) store) jobId report := by
  obtain ⟨hauth, ⟨db, now, hserved, hdb⟩, r, hr, hid, hactive, hagent, text, hdumps⟩ := h
  have hvalues := (prepareMove_complete_iff spy cfg r detail report _).mpr
    ⟨hactive, hagent, text, hdumps, rfl⟩
  unfold post
  rw [hserved]
  simp only [next_complete store db now jobId detail report hauth]
  rw [Store.transition_eq hr hid hdb hvalues]
  exact ⟨_, Store.mem_moveRow hr hid, hid, text, hdumps, rfl⟩

/-- The store is left alone, or it has taken the report. -/
theorem transition_eq_or (store : Store) (db : Database) (now jobId : Int) (detail : String)
    (report : TelemetryReport) :
    (store.transition spy.toStorePython db now jobId .complete (.str cfg.agentId) (.str detail)
        (.obj report.toReportDict)).2 = store ∨
      db ≠ .refuses ∧ ∃ r ∈ store.jobs.rows, r.id = jobId ∧ r.Active ∧
        (r.agentId = none ∨ r.agentId = some cfg.agentId) ∧
        ∃ text, spy.dumps (.obj report.toReportDict) = .ok text := by
  unfold Store.transition
  by_cases hdb : db = .refuses
  · rw [if_pos hdb]
    exact .inl rfl
  · rw [if_neg hdb]
    cases hfind : store.jobs.find jobId with
    | none => exact .inl rfl
    | some r =>
        obtain ⟨hr, hid⟩ := Table.find_eq_some.mp hfind
        cases hvalues : Store.prepareMove spy.toStorePython r .complete (.str cfg.agentId)
            (.str detail) (.obj report.toReportDict) with
        | error e =>
            simp only [hvalues]
            exact .inl trivial
        | ok values =>
            obtain ⟨hactive, hagent, text, hdumps, -⟩ :=
              (prepareMove_complete_iff spy cfg r detail report values).mp hvalues
            exact .inr ⟨hdb, r, hr, hid, hactive, hagent, text, hdumps⟩

theorem post_eq_or (store : Store) (x : Exchange) (jobId : Int) (report : TelemetryReport)
    (detail : String) :
    post spy scfg cfg x jobId (statusBody cfg "complete" detail (some report.toReportDict)) store =
        store ∨
      Accepted spy scfg cfg store x jobId report := by
  unfold post
  cases hserved : x.served with
  | none => exact .inl rfl
  | some served =>
      obtain ⟨db, now⟩ := served
      by_cases hauth : authorised scfg cfg.authorization
      · simp only [next_complete store db now jobId detail report hauth]
        obtain hsame | ⟨hdb, hrow⟩ := transition_eq_or store db now jobId detail report
        · exact .inl hsame
        · exact .inr ⟨hauth, ⟨db, now, hserved, hdb⟩, hrow⟩
      · exact .inl (next_unauthorised store _ hauth)

/-- The report is with the server after the post exactly when it was before, or the post is taken. -/
theorem carried_post_iff (store : Store) (x : Exchange) (jobId : Int) (report : TelemetryReport)
    (detail : String) :
    Carried spy (post spy scfg cfg x jobId
        (statusBody cfg "complete" detail (some report.toReportDict)) store) jobId report ↔
      Carried spy store jobId report ∨ Accepted spy scfg cfg store x jobId report := by
  obtain hsame | haccepted := post_eq_or store x jobId report detail
  · rw [hsame]
    constructor
    · exact .inl
    · intro h
      obtain h | h := h
      · exact h
      · rw [← hsame]
        exact carried_of_accepted h
  · exact iff_of_true (carried_of_accepted haccepted) (.inr haccepted)

/-! ## One step of the rig -/

variable {py}

/-- A report that is read is in its file until the ack. -/
def Unread (s : Rig) : Prop :=
  ∀ job report, s.phase = .acking job report → (s.out job.id).isSome

theorem unread_pollFile {s : Rig} (hs : Unread s) (now : Int) (removed : Bool) (later : Int)
    (job : ClaimedJob) (deadline : Int) : Unread (s.pollFile py now removed later job deadline) := by
  intro job' report' hphase
  unfold Rig.pollFile at hphase ⊢
  by_cases hnow : now < deadline
  · rw [if_pos hnow] at hphase ⊢
    cases hfile : s.out job.id with
    | none =>
        rw [hfile] at hphase
        exact hs job' report' hphase
    | some file =>
        simp only [hfile] at hphase ⊢
        cases hparse : parseReport py file with
        | ok report =>
            simp only [hparse] at hphase ⊢
            obtain ⟨rfl, -⟩ := Phase.acking.inj hphase
            rw [hfile]
            rfl
        | error e =>
            cases e <;> simp only [hparse] at hphase <;> cases hphase
  · rw [if_neg hnow] at hphase
    cases hphase

/-- Only a poll begins the work on a report. -/
theorem acking_of_step {s : Rig} {event : RigEvent} {job : ClaimedJob} {report : TelemetryReport}
    (hpoll : ∀ now removed later, event ≠ .poll now removed later)
    (h : (s.step spy scfg py cfg event).phase = .acking job report) :
    s.phase = .acking job report ∧
      ∀ jobId, (s.out jobId).isSome → ((s.step spy scfg py cfg event).out jobId).isSome := by
  unfold Rig.step at h ⊢
  cases hphase : s.phase <;> cases event <;> simp_all
  case idle.claim served claimed => cases claimed <;> cases h
  case staging.stage failure => cases failure <;> cases h
  case starting.start x =>
      split at h
      · cases h
      · cases h
  case acking.plugin written file =>
      intro jobId hjobId
      by_cases heq : jobId = written
      · rw [heq, Function.update_self]
        rfl
      · rwa [Function.update_of_ne heq]

theorem unread_poll {s : Rig} (hs : Unread s) (now : Int) (removed : Bool) (later : Int) :
    Unread (s.step spy scfg py cfg (.poll now removed later)) := by
  unfold Rig.step
  cases hphase : s.phase with
  | waiting job deadline => exact unread_pollFile hs now removed later job deadline
  | _ => exact hs

theorem unread_step {s : Rig} (hs : Unread s) (event : RigEvent) :
    Unread (s.step spy scfg py cfg event) := by
  by_cases hpoll : ∃ now removed later, event = .poll now removed later
  · obtain ⟨now, removed, later, rfl⟩ := hpoll
    exact unread_poll hs now removed later
  · intro job report hphase
    obtain ⟨hbefore, hout⟩ := acking_of_step
      (fun now removed later h => hpoll ⟨now, removed, later, h⟩) hphase
    exact hout job.id (hs job report hbefore)

/-- The work on a report that is to be acknowledged ends only by an exception. -/
theorem out_of_acking {s : Rig} {event : RigEvent} {job : ClaimedJob} {report : TelemetryReport}
    (h : s.phase = .acking job report) (hidle : (s.step spy scfg py cfg event).phase = .idle) :
    (s.step spy scfg py cfg event).out = s.out := by
  unfold Rig.step at hidle ⊢
  cases event <;> simp_all

/-- The work on a report that is to be shipped ends only with the post. -/
theorem ship_of_shipping {s : Rig} {event : RigEvent} {job : ClaimedJob}
    {report : TelemetryReport} (h : s.phase = .shipping job report)
    (hidle : (s.step spy scfg py cfg event).phase = .idle) : ∃ x, event = .ship x := by
  unfold Rig.step at hidle
  cases event <;> simp_all

/-- A step that does not end the work on the report has nothing to keep. -/
theorem keepsReport_of_not_idle {s s' : Rig} (h : s'.phase ≠ .idle) : KeepsReport spy s s' :=
  fun _ _ _ hidle => absurd hidle h

theorem keepsReport_of_not_read {s s' : Rig} (h : ∀ job report, ¬ s.phase.HasRead job report) :
    KeepsReport spy s s' :=
  fun job report hread _ => absurd hread (h job report)

/-- The post ends the work with the report kept exactly when it delivers it. -/
theorem keepsReport_ship_iff {s : Rig} {job : ClaimedJob} {report : TelemetryReport}
    (h : s.phase = .shipping job report) (x : Exchange) :
    KeepsReport spy s (s.step spy scfg py cfg (.ship x)) ↔
      (s.out job.id).isSome ∨ Carried spy s.store job.id report ∨
        Accepted spy scfg cfg s.store x job.id report := by
  have hstep : s.step spy scfg py cfg (.ship x) = { s with
      store := post spy scfg cfg x job.id
        (statusBody cfg "complete" (summariseReport py report) (some report.toReportDict)) s.store
      phase := .idle } := by
    unfold Rig.step
    rw [h]
  rw [hstep]
  have hkept : Kept spy { s with
      store := post spy scfg cfg x job.id
        (statusBody cfg "complete" (summariseReport py report) (some report.toReportDict)) s.store
      phase := .idle } job.id report ↔
      (s.out job.id).isSome ∨ Carried spy s.store job.id report ∨
        Accepted spy scfg cfg s.store x job.id report := by
    unfold Kept
    rw [carried_post_iff]
    exact or_comm
  rw [← hkept]
  constructor
  · intro hkeeps
    exact hkeeps job report (.inr h) rfl
  · intro hreport job' report' hread _
    obtain hread | hread := hread
    · rw [h] at hread
      cases hread
    · rw [h] at hread
      obtain ⟨rfl, rfl⟩ := Phase.shipping.inj hread
      exact hreport

/-- The step ends the work on a report with the report kept, exactly when it delivers it. -/
theorem keepsReport_iff {s : Rig} (hs : Unread s) (event : RigEvent) :
    KeepsReport spy s (s.step spy scfg py cfg event) ↔ Delivers spy scfg cfg s event := by
  cases hphase : s.phase with
  | shipping job report =>
      by_cases hship : ∃ x, event = .ship x
      · obtain ⟨x, rfl⟩ := hship
        rw [keepsReport_ship_iff hphase]
        unfold Delivers
        rw [hphase]
      · have hdelivers : Delivers spy scfg cfg s event := by
          unfold Delivers
          rw [hphase]
          cases event with
          | ship x => exact absurd ⟨x, rfl⟩ hship
          | _ => trivial
        apply iff_of_true (keepsReport_of_not_idle _) hdelivers
        intro hidle
        exact hship (ship_of_shipping hphase hidle)
  | acking job report =>
      have hdelivers : Delivers spy scfg cfg s event := by
        unfold Delivers
        rw [hphase]
        trivial
      apply iff_of_true _ hdelivers
      intro job' report' hread hidle
      have hout := out_of_acking hphase hidle
      obtain hread | hread := hread
      · right
        rw [hout]
        exact hs job' report' hread
      · rw [hphase] at hread
        cases hread
  | _ =>
      have hdelivers : Delivers spy scfg cfg s event := by
        unfold Delivers
        rw [hphase]
        trivial
      apply iff_of_true (keepsReport_of_not_read _) hdelivers
      intro job' report' hread
      unfold Phase.HasRead at hread
      rw [hphase] at hread
      obtain hread | hread := hread
      · cases hread
      · cases hread

variable (spy scfg py cfg)

/-- In every run of the rig: a report that the agent has read is on the server or in its file when
    the agent is done with it, exactly when each post of a report delivers it. -/
theorem telemetry_kept_iff (events : List RigEvent) :
    Steps (fun s event => KeepsReport spy s (s.step spy scfg py cfg event))
        (Rig.step spy scfg py cfg) .start events ↔
      Steps (Delivers spy scfg cfg) (Rig.step spy scfg py cfg) .start events := by
  apply steps_congr (I := Unread)
  · exact fun s event hs _ => unread_step hs event
  · exact fun s event hs => keepsReport_iff hs event
  · intro job report h
    cases h

end

/-! ## A report that is lost -/

/-- An agent with the token of the server that waits a minute longer than the time-out. -/
def plainRig : RigConfig := ⟨"agent-1", "Bearer t", fun timeout => timeout + 60⟩

def plainJob : ClaimedJob := ⟨1, "run", "url", 1, "00", 300, []⟩

/-- The agent claims the job at time 1 and drops the trigger at time 3. At time 302 another agent
    asks for work, and the sweep takes the job away. At time 320, before the deadline 363, the agent
    reads the report. -/
def sweptRun : List RigEvent :=
  [.other ⟨"Bearer t", .enqueueJob .answers 0 (fun _ => none) ⟨some [1], some "run", none, none⟩⟩,
    .claim (some (.answers, .answers, 1, 1)) (some plainJob), .clear true, .stage none,
    .start ⟨some (.answers, 2), .answer⟩, .drop 3,
    .other ⟨"Bearer t", .claimNextJob .answers .answers 302 302 "agent-2"⟩,
    .plugin 1 (.text ""), .poll 320 true 320, .ack true]

def sweptReport : TelemetryReport :=
  ⟨1, "", false, none, false, false, [], [], "other", none, none, none, none⟩

/-- Every call of the agent is answered, and the report is neither on the server nor in its file. -/
theorem swept_report_lost :
    let s := after (Rig.step plainPython plainServer plainAgentPython plainRig) .start sweptRun
    let s' := s.step plainPython plainServer plainAgentPython plainRig
      (.ship ⟨some (.answers, 321), .answer⟩)
    s.phase = .shipping plainJob sweptReport ∧ s'.out 1 = none ∧
      s'.store.jobs.rows.map (fun r => (r.id, r.status, r.reportJson)) = [(1, .timedOut, none)] := by
  refine ⟨rfl, rfl, ?_⟩
  decide +kernel

end TraxMania.RemoteTest
