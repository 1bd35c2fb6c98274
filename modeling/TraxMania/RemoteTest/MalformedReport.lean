import TraxMania.RemoteTest.TelemetryKept

/-
  Malformed reports: which files make `_parse_report` raise what the agent does not expect, and
  that these are exactly the files that keep the agent from ending the job.
-/

namespace TraxMania.RemoteTest

open TraxMania.Generation TraxMania.Generation.Llm Lib Lib.Outcome Lib.Transition

/-! ## The values that `int` reads -/

/-- `int(value)` returns. -/
def intReadable (py : Python) : Json → Bool
  | .bool _ => true
  | .int _ => true
  | .float (.finite _) => true
  | .str text => (py.intOfText text).isSome
  | _ => false

/-- `Infinity` or `-Infinity`: what `int` overflows on. -/
def infinite : Json → Bool
  | .float (.infinite _) => true
  | _ => false

/-- `int` returns, overflows, or raises what the loop over the cells skips. -/
theorem toInt_cases (py : Python) (value : Json) :
    (∃ n, value.toInt py = .ok n ∧ intReadable py value = true ∧ infinite value = false) ∨
      (value.toInt py = .error .overflowError ∧ intReadable py value = false ∧
        infinite value = true) ∨
      ((value.toInt py = .error .typeError ∨ value.toInt py = .error .valueError) ∧
        intReadable py value = false ∧ infinite value = false) := by
  unfold Json.toInt intReadable infinite
  cases value with
  | float x => cases x <;> simp
  | str text => cases h : py.intOfText text <;> simp [h]
  | _ => simp

theorem returns_toInt_iff (py : Python) (value : Json) :
    Returns (value.toInt py) ↔ intReadable py value := by
  obtain ⟨n, hn, hread, -⟩ | ⟨hn, hread, -⟩ | ⟨hn | hn, hread, -⟩ := toInt_cases py value
  all_goals rw [hn, hread]; simp

/-! ## The fields of a report -/

/-- No conversion of the entry of `driven_cells` reaches an infinity: none stands before the first
    item that `int` cannot read. -/
def cellReadable (py : Python) : Json → Bool
  | .arr [a, b, c] =>
    !infinite a && (!intReadable py a || (!infinite b && (!intReadable py b || !infinite c)))
  | _ => true

/-- No number that `int` cannot read: neither a NaN nor an infinity. -/
def timeReadable : Json → Bool
  | .float (.infinite _) => false
  | .float .nan => false
  | _ => true

/-- The loop over `checkpoint_times_ms` has something to run over, and reads its numbers. -/
def timesReadable : Json → Bool
  | .arr items => items.all timeReadable
  | .obj _ => true
  | .str _ => true
  | value => !truthy value

/-- The time is not `Infinity`. -/
def authorTimeReadable : Json → Bool
  | .float (.infinite false) => false
  | _ => true

/-- Every conversion of a field goes through, or raises what its loop skips. -/
structure FieldsReadable (py : Python) (entries : List (String × Json)) (jobId : Json) : Prop where
  cells : ∀ items, field entries "driven_cells" .null = .arr items → ∀ item ∈ items, cellReadable py item
  authorTime : authorTimeReadable (field entries "author_time_ms" .null)
  jobId : intReadable py jobId
  times : timesReadable (field entries "checkpoint_times_ms" .null)

/-- What `json.loads` makes of the text: no JSON, something that the checks of `_parse_report`
    refuse, or a report of the protocol with readable fields. -/
def LoadedReadable (py : Python) : Except PyError Json → Prop
  | .error e => e = .jsonDecodeError
  | .ok (.obj entries) =>
    field entries "protocol" .null = .str protocolVersion →
      ∀ jobId, entries.lookup "job_id" = some jobId → FieldsReadable py entries jobId
  | .ok _ => True

/-- The file cannot be opened, or holds UTF-8 and no value that `_parse_report` stumbles over. -/
def Convertible (py : AgentPython) : OutFile → Prop
  | .unreadable => True
  | .notUtf8 => False
  | .text content => LoadedReadable py.toPython (py.loads content)

/-- `PluginIOError`. -/
def IsPluginIo (e : PluginError) : Prop := ∃ text, e = .pluginIo text

theorem within_escaping_iff {α : Type} {x : Except PyError α} :
    Within IsPluginIo (escaping x) ↔ Returns x := by
  cases x with
  | ok a => exact iff_of_true (within_ok a) (returns_ok a)
  | error e => exact iff_of_false (fun h => nomatch h _ rfl) (not_returns_error e)

/-- A conversion, and what comes after it. -/
theorem within_escaping_bind {α β : Type} {x : Except PyError α} {f : α → Except PluginError β}
    {p : Prop} (hf : ∀ a, Within IsPluginIo (f a) ↔ p) :
    Within IsPluginIo (escaping x >>= f) ↔ Returns x ∧ p := by
  rw [within_bind, within_escaping_iff]
  apply and_congr_right
  rintro ⟨a, rfl⟩
  constructor
  · intro h
    exact (hf a).mp (h a rfl)
  · intro hp b _
    exact (hf b).mpr hp

theorem returns_entryCell_iff (py : Python) (item : Json) :
    Returns (entryCell py item) ↔ cellReadable py item := by
  by_cases htriple : ∃ a b c, item = .arr [a, b, c]
  · obtain ⟨a, b, c, rfl⟩ := htriple
    unfold entryCell tripleToCell cellReadable
    obtain ⟨n, ha, hra, hia⟩ | ⟨ha, hra, hia⟩ | ⟨ha | ha, hra, hia⟩ := toInt_cases py a
    case inl =>
      obtain ⟨m, hb, hrb, hib⟩ | ⟨hb, hrb, hib⟩ | ⟨hb | hb, hrb, hib⟩ := toInt_cases py b
      case inl =>
        obtain ⟨k, hc, hrc, hic⟩ | ⟨hc, hrc, hic⟩ | ⟨hc | hc, hrc, hic⟩ := toInt_cases py c
        all_goals simp [ha, hra, hia, hb, hrb, hib, hc, hic, Bind.bind, Except.bind, Pure.pure, Except.pure]
      all_goals simp [ha, hra, hia, hb, hrb, hib, Bind.bind, Except.bind]
    all_goals simp [ha, hra, hia, Bind.bind, Except.bind]
  · unfold entryCell cellReadable
    split
    · next a b c => exact absurd ⟨a, b, c, rfl⟩ htriple
    · simp

theorem returns_entryCells_iff {py : Python} {items : List Json} :
    Returns (entryCells py items) ↔ ∀ item ∈ items, cellReadable py item := by
  rw [← Enumerate.returns_collect (fun _ => returns_entryCell_iff py) 0]
  unfold entryCells
  cases Enumerate.collect (fun _ => entryCell py) 0 items <;> simp [Except.map]

theorem returns_authorTime_iff {value : Json} :
    Returns (authorTime value) ↔ authorTimeReadable value := by
  unfold authorTime authorTimeReadable
  split <;> simp_all

theorem returns_mapM_toInt_iff {py : Python} {items : List Json} :
    Returns (items.mapM (Json.toInt py)) ↔ ∀ item ∈ items, intReadable py item := by
  induction items with
  | nil => simp
  | cons item items ih =>
    rw [List.mapM_cons, List.forall_mem_cons, ← ih, ← returns_toInt_iff py]
    apply returns_bind
    intro n _
    rw [returns_bind fun ns _ => iff_of_true (returns_pure (n :: ns)) trivial, and_true]

/-- `isinstance(item, (int, float))`. -/
def isNumber : Json → Bool
  | .int _ => true
  | .float _ => true
  | .bool _ => true
  | _ => false

theorem checkpointTimes_eq (py : AgentPython) (value : Json) :
    checkpointTimes py value =
      (if truthy value then value.iterate else .ok []) >>= fun items =>
        (items.filter isNumber).mapM (Json.toInt py.toPython) := by
  unfold checkpointTimes
  cases truthy value <;> rfl

/-- Only numbers are converted, and of these `int` reads all but a NaN and the infinities. -/
theorem returns_mapM_filter_iff {py : Python} {items : List Json} :
    Returns ((items.filter isNumber).mapM (Json.toInt py)) ↔
      ∀ item ∈ items, timeReadable item := by
  rw [returns_mapM_toInt_iff]
  apply forall_congr'
  intro item
  rw [List.mem_filter, and_imp]
  apply imp_congr_right
  intro _
  cases item with
  | float x => cases x <;> simp [isNumber, intReadable, timeReadable]
  | _ => simp [isNumber, intReadable, timeReadable]

theorem returns_checkpointTimes_iff {py : AgentPython} {value : Json} :
    Returns (checkpointTimes py value) ↔ timesReadable value := by
  rw [checkpointTimes_eq]
  by_cases htruthy : truthy value
  · rw [if_pos htruthy]
    cases value with
    | arr items =>
      rw [Json.iterate, ok_bind, returns_mapM_filter_iff, timesReadable, List.all_eq_true]
    | obj entries =>
      rw [Json.iterate, ok_bind, returns_mapM_filter_iff]
      apply iff_of_true _ rfl
      intro item hitem
      obtain ⟨entry, -, rfl⟩ := List.mem_map.mp hitem
      rfl
    | str text =>
      rw [Json.iterate, ok_bind, returns_mapM_filter_iff]
      simp [timesReadable, timeReadable]
    | _ =>
      apply iff_of_false
      · exact not_returns_error PyError.typeError
      · simp [timesReadable, htruthy]
  · rw [if_neg htruthy, ok_bind]
    apply iff_of_true (returns_ok [])
    cases value with
    | arr items =>
      obtain rfl : items = [] := by simpa [truthy] using htruthy
      rfl
    | _ => simp_all [timesReadable]

/-! ## The report -/

theorem returns_cells_iff {py : AgentPython} {value : Json} :
    Returns (match value with
      | .arr items => entryCells py.toPython items
      | _ => .ok []) ↔ ∀ items, value = .arr items → ∀ item ∈ items, cellReadable py.toPython item := by
  cases value with
  | arr items => simp [returns_entryCells_iff]
  | _ => simp

/-- A report of the protocol is read when its fields are readable. -/
theorem within_parseReport_obj_iff (py : AgentPython) {file : OutFile} {entries : List (String × Json)}
    {jobId : Json} (hbody : readBody py file = .ok entries)
    (hprotocol : field entries "protocol" .null = .str protocolVersion)
    (hjobId : entries.lookup "job_id" = some jobId) :
    Within IsPluginIo (parseReport py file) ↔ FieldsReadable py.toPython entries jobId := by
  unfold parseReport
  rw [hbody, ok_bind, hprotocol, hjobId]
  simp only [if_true]
  refine (within_escaping_bind fun cells => within_escaping_bind fun authorTimeMs =>
    within_escaping_bind fun id => within_escaping_bind fun times =>
      iff_of_true (within_pure _) trivial).trans ?_
  rw [returns_authorTime_iff, returns_toInt_iff, returns_checkpointTimes_iff, and_true]
  refine (and_congr_left' returns_cells_iff).trans ?_
  constructor
  · rintro ⟨hcells, hauthor, hid, htimes⟩
    exact ⟨hcells, hauthor, hid, htimes⟩
  · rintro ⟨hcells, hauthor, hid, htimes⟩
    exact ⟨hcells, hauthor, hid, htimes⟩

/-- What is no report of the protocol, or names no job, is refused. -/
theorem within_parseReport_of_refused (py : AgentPython) {file : OutFile}
    {entries : List (String × Json)} (hbody : readBody py file = .ok entries)
    (h : field entries "protocol" .null ≠ .str protocolVersion ∨ entries.lookup "job_id" = none) :
    Within IsPluginIo (parseReport py file) := by
  unfold parseReport
  rw [hbody, ok_bind]
  split
  · next protocol jobId hprotocol hjobId =>
    rw [if_neg]
    · exact within_error.mpr ⟨_, rfl⟩
    · rintro rfl
      obtain h | h := h
      · exact h hprotocol
      · rw [hjobId] at h
        cases h
  · split
    · exact within_error.mpr ⟨_, rfl⟩
    · exact within_error.mpr ⟨_, rfl⟩
  · exact within_error.mpr ⟨_, rfl⟩

theorem parseReport_of_readBody {py : AgentPython} {file : OutFile} {e : PluginError}
    (h : readBody py file = .error e) : parseReport py file = .error e := by
  unfold parseReport
  rw [h]
  rfl

/-- A text that is no report is refused, and a report is read when its fields are readable. -/
theorem within_parseReport_iff (py : AgentPython) (file : OutFile) :
    Within IsPluginIo (parseReport py file) ↔ Convertible py file := by
  cases file with
  | unreadable =>
    rw [parseReport_of_readBody rfl, within_error]
    exact iff_of_true ⟨_, rfl⟩ trivial
  | notUtf8 =>
    rw [parseReport_of_readBody rfl, within_error]
    exact iff_of_false (fun ⟨_, h⟩ => nomatch h) id
  | text content =>
    show Within IsPluginIo (parseReport py (.text content)) ↔
      LoadedReadable py.toPython (py.loads content)
    cases hloads : py.loads content with
    | error e =>
      by_cases he : e = .jsonDecodeError
      · have hbody : readBody py (.text content) =
            .error (.pluginIo ("read/decode failed: " ++ py.readError (.text content))) := by
          simp only [readBody, hloads, he]
        rw [parseReport_of_readBody hbody, within_error]
        exact iff_of_true ⟨_, rfl⟩ he
      · have hbody : readBody py (.text content) = .error .other := by
          cases e <;> simp_all [readBody]
        rw [parseReport_of_readBody hbody, within_error]
        exact iff_of_false (fun ⟨_, h⟩ => nomatch h) he
    | ok value =>
      cases value with
      | obj entries =>
        have hbody : readBody py (.text content) = .ok entries := by
          simp only [readBody, hloads]
        by_cases hprotocol : field entries "protocol" .null = .str protocolVersion
        · cases hjobId : entries.lookup "job_id" with
          | none =>
            apply iff_of_true (within_parseReport_of_refused py hbody (.inr hjobId))
            intro _ jobId h
            rw [hjobId] at h
            cases h
          | some jobId =>
            rw [within_parseReport_obj_iff py hbody hprotocol hjobId]
            constructor
            · intro h _ jobId' hjobId'
              obtain rfl : jobId = jobId' := Option.some.inj (hjobId.symm.trans hjobId')
              exact h
            · intro h
              exact h hprotocol jobId hjobId
        · apply iff_of_true (within_parseReport_of_refused py hbody (.inl hprotocol))
          intro h
          exact absurd h hprotocol
      | _ =>
        have hbody : readBody py (.text content) =
            .error (.pluginIo "root must be a JSON object") := by
          simp only [readBody, hloads]
        rw [parseReport_of_readBody hbody, within_error]
        exact iff_of_true ⟨_, rfl⟩ trivial

/-! ## The end of a job -/

/-- The job whose report the agent waits for, has read, or has given up. -/
def Phase.awaited : Phase → Option ClaimedJob
  | .waiting job _ => some job
  | .acking job _ => some job
  | .shipping job _ => some job
  | .failing job _ _ => some job
  | _ => none

/-- From the one store to the other the job moves to a terminal status. -/
def Ended (store store' : Store) (jobId : Int) : Prop :=
  ∃ r ∈ store.jobs.rows, r.id = jobId ∧ ¬ r.status.isTerminal ∧
    ∃ r' ∈ store'.jobs.rows, r'.id = jobId ∧ r'.status.isTerminal

section

variable (spy : ServerPython) (scfg : ServerConfig) (py : AgentPython) (cfg : RigConfig)

/-- The server answers the post with 200. -/
def Answered (store : Store) (x : Exchange) (jobId : Int) (body : Json) : Prop :=
  ∃ db now, x.served = some (db, now) ∧
    ∃ job, (serve spy scfg store ⟨cfg.authorization, .postStatus db now jobId body⟩).1 =
      .job 200 job

/-- The posts that end a job succeed, and no other call of the agent raises. -/
def CallsSucceed (s : Rig) (event : RigEvent) : Prop :=
  match s.phase, event with
  | .shipping job report, .ship x =>
    Answered spy scfg cfg s.store x job.id
      (statusBody cfg "complete" (summariseReport py report) (some report.toReportDict))
  | .failing job status detail, .fail x =>
    Answered spy scfg cfg s.store x job.id (statusBody cfg status detail none)
  | _, .raised => False
  | _, _ => True

/-- When its calls succeed, the agent is done with a job only by moving it to a terminal status. -/
def EndsJob (s : Rig) (event : RigEvent) : Prop :=
  CallsSucceed spy scfg py cfg s event → ∀ job, s.phase.awaited = some job →
    (s.step spy scfg py cfg event).phase = .idle →
      Ended s.store (s.step spy scfg py cfg event).store job.id

/-- The file that the agent finds before the deadline is convertible. -/
def ReadsConvertible (s : Rig) (event : RigEvent) : Prop :=
  match s.phase, event with
  | .waiting job deadline, .poll now _ _ =>
    now < deadline → ∀ file, s.out job.id = some file → Convertible py file
  | _, _ => True

variable {spy scfg py cfg}

/-- Nothing ends a job that leaves the store as it is. -/
theorem not_ended_self (store : Store) (jobId : Int) : ¬ Ended store store jobId := by
  rintro ⟨r, hr, hid, hopen, r', hr', hid', hterminal⟩
  obtain rfl := store.jobs.eq_of_key_eq hr hr' (hid.trans hid'.symm)
  exact hopen hterminal

/-- A transition that returns has moved the row of the job. -/
theorem ended_of_transition {store : Store} {db : Database} {now jobId : Int} {toStatus : JobStatus}
    {agentId detail report : Json} {job : Job} (hterminal : toStatus.isTerminal)
    (h : (store.transition spy.toStorePython db now jobId toStatus agentId detail report).1 =
      .ok job) :
    Ended store
      (store.transition spy.toStorePython db now jobId toStatus agentId detail report).2 jobId := by
  have hdb : db ≠ .refuses := by
    rintro rfl
    cases h
  unfold Store.transition at h
  rw [if_neg hdb] at h
  cases hfind : store.jobs.find jobId with
  | none =>
    rw [hfind] at h
    cases h
  | some r =>
    obtain ⟨hr, hid⟩ := Table.find_eq_some.mp hfind
    rw [hfind] at h
    cases hvalues : Store.prepareMove spy.toStorePython r toStatus agentId detail report with
    | error e =>
      simp only [hvalues] at h
      cases h
    | ok values =>
      have hallowed := Store.allowed_of_prepareMove hvalues
      refine ⟨r, hr, hid, ?_, ?_⟩
      · intro hr
        rw [JobStatus.allowed_of_isTerminal hr] at hallowed
        cases hallowed
      · rw [Store.transition_eq hr hid hdb hvalues]
        exact ⟨_, Store.mem_moveRow hr hid, hid, hterminal⟩

/-- A post of a terminal status that is answered with 200 ends the job. -/
theorem ended_of_answered {store : Store} {x : Exchange} {jobId : Int} {body : Json}
    {values : StatusPost} (hbody : statusPost spy body = .ok values)
    (hterminal : values.toStatus.isTerminal) (h : Answered spy scfg cfg store x jobId body) :
    Ended store (post spy scfg cfg x jobId body store) jobId := by
  obtain ⟨db, now, hserved, job, hjob⟩ := h
  unfold post next
  rw [hserved]
  unfold serve at hjob ⊢
  by_cases hauth : authorised scfg cfg.authorization
  · simp only [if_pos hauth, postStatus, hbody] at hjob ⊢
    cases hresult : (store.transition spy.toStorePython db now jobId values.toStatus values.agentId
        values.detail values.report).1 with
    | error e =>
      simp only [hresult] at hjob
      cases e <;> cases hjob
    | ok moved =>
      exact ended_of_transition hterminal hresult
  · rw [if_neg hauth] at hjob
    cases hjob

/-! ## One step of the agent -/

/-- `_report_fail` is called with a terminal status. -/
def FailsTerminal (s : Rig) : Prop :=
  ∀ job status detail, s.phase = .failing job status detail → status = "failed" ∨ status = "timed_out"

theorem failsTerminal_pollFile {s : Rig} (hs : FailsTerminal s) (now : Int) (removed : Bool)
    (later : Int) (job : ClaimedJob) (deadline : Int) :
    FailsTerminal (s.pollFile py now removed later job deadline) := by
  unfold Rig.pollFile
  by_cases hnow : now < deadline
  · rw [if_pos hnow]
    cases hfile : s.out job.id with
    | none => exact hs
    | some file =>
      cases hparse : parseReport py file with
      | ok report =>
        intro job' status detail h
        simp only [hparse] at h
        cases h
      | error e =>
        intro job' status detail h
        cases e with
        | pluginIo text =>
          simp only [hparse] at h
          obtain ⟨-, rfl, -⟩ := Phase.failing.inj h
          exact .inr rfl
        | other =>
          simp only [hparse] at h
          cases h
  · rw [if_neg hnow]
    intro job' status detail h
    obtain ⟨-, rfl, -⟩ := Phase.failing.inj h
    exact .inr rfl

theorem failsTerminal_step {s : Rig} (hs : FailsTerminal s) (event : RigEvent) :
    FailsTerminal (s.step spy scfg py cfg event) := by
  by_cases hpoll : ∃ job deadline now removed later,
      s.phase = .waiting job deadline ∧ event = .poll now removed later
  · obtain ⟨job, deadline, now, removed, later, hphase, rfl⟩ := hpoll
    unfold Rig.step
    rw [hphase]
    exact failsTerminal_pollFile hs now removed later job deadline
  · intro job status detail h
    unfold Rig.step at h
    cases hphase : s.phase <;> cases event <;> simp_all
    case idle.claim served claimed => cases claimed <;> cases h
    case staging.stage failure =>
      cases failure with
      | none => cases h
      | some text =>
        obtain ⟨-, rfl, -⟩ := Phase.failing.inj h
        exact .inl rfl
    case starting.start x =>
      split at h
      · cases h
      · cases h
    all_goals exact hs _ _ _ (by assumption)

/-- The endpoint understands the post of a failure. -/
theorem statusPost_fail (spy : ServerPython) (cfg : RigConfig) {status : String} (h : status = "failed" ∨ status = "timed_out")
    (detail : String) :
    ∃ values, statusPost spy (statusBody cfg status detail none) = .ok values ∧
      values.toStatus.isTerminal := by
  obtain rfl | rfl := h
  · refine ⟨⟨.failed, .str cfg.agentId, .str detail, .null⟩, ?_, rfl⟩
    simp [statusPost, statusBody, truthy, field, JobStatus.ofValue, JobStatus.value, List.lookup_cons]
  · refine ⟨⟨.timedOut, .str cfg.agentId, .str detail, .null⟩, ?_, rfl⟩
    simp [statusPost, statusBody, truthy, field, JobStatus.ofValue, JobStatus.value, List.lookup_cons]

/-- A poll gives up on the job without a word exactly when it reads a file that is not
    convertible. -/
theorem pollFile_idle_iff {s : Rig} {now : Int} {removed : Bool} {later : Int} {job : ClaimedJob}
    {deadline : Int} (hphase : s.phase = .waiting job deadline) :
    (s.pollFile py now removed later job deadline).phase = .idle ↔
      now < deadline ∧ ∃ file, s.out job.id = some file ∧ ¬ Convertible py file := by
  unfold Rig.pollFile
  by_cases hnow : now < deadline
  · rw [if_pos hnow]
    cases hfile : s.out job.id with
    | none => simp [hphase]
    | some file =>
      have hfile' : (∃ file', some file = some file' ∧ ¬ Convertible py file') ↔
          ¬ Within IsPluginIo (parseReport py file) := by
        rw [within_parseReport_iff]
        simp
      rw [hfile']
      cases hparse : parseReport py file with
      | ok report => simp [hparse]
      | error e => cases e <;> simp [hparse, IsPluginIo, hnow]
  · simp [hnow]

theorem store_pollFile (s : Rig) (now : Int) (removed : Bool) (later : Int) (job : ClaimedJob)
    (deadline : Int) : (s.pollFile py now removed later job deadline).store = s.store := by
  unfold Rig.pollFile
  split
  · split
    · rfl
    · split <;> rfl
  · rfl

/-- Apart from a poll, the agent is done with a job only by the post that ends it. -/
theorem ended_of_post {s : Rig} (hs : FailsTerminal s) {event : RigEvent}
    (hpoll : ∀ job deadline now removed later,
      ¬ (s.phase = .waiting job deadline ∧ event = .poll now removed later))
    (hsucceed : CallsSucceed spy scfg py cfg s event) {job : ClaimedJob}
    (hawaited : s.phase.awaited = some job)
    (hidle : (s.step spy scfg py cfg event).phase = .idle) :
    Ended s.store (s.step spy scfg py cfg event).store job.id := by
  unfold CallsSucceed at hsucceed
  unfold Rig.step at hidle ⊢
  cases hphase : s.phase with
  | waiting job' deadline =>
    rw [hphase] at hsucceed hidle
    cases event with
    | poll now removed later => exact absurd ⟨hphase, rfl⟩ (hpoll job' deadline now removed later)
    | raised => exact hsucceed.elim
    | _ => simp [hphase] at hidle
  | acking job' report =>
    rw [hphase] at hsucceed hidle
    cases event with
    | raised => exact hsucceed.elim
    | _ => simp [hphase] at hidle
  | shipping job' report =>
    rw [hphase] at hsucceed hidle hawaited
    obtain rfl : job' = job := Option.some.inj hawaited
    cases event with
    | ship x => exact ended_of_answered (statusPost_complete spy cfg _ report) rfl hsucceed
    | _ => simp [hphase] at hidle
  | failing job' status detail =>
    rw [hphase] at hsucceed hidle hawaited
    obtain rfl : job' = job := Option.some.inj hawaited
    cases event with
    | fail x =>
      obtain ⟨values, hvalues, hterminal⟩ :=
        statusPost_fail spy cfg (hs job' status detail hphase) detail
      exact ended_of_answered hvalues hterminal hsucceed
    | raised => exact hsucceed.elim
    | _ => simp [hphase] at hidle
  | _ =>
    rw [hphase] at hawaited
    cases hawaited

theorem endsJob_iff {s : Rig} (hs : FailsTerminal s) (event : RigEvent) :
    EndsJob spy scfg py cfg s event ↔ ReadsConvertible py s event := by
  by_cases hpoll : ∃ job deadline now removed later,
      s.phase = .waiting job deadline ∧ event = .poll now removed later
  · obtain ⟨job, deadline, now, removed, later, hphase, rfl⟩ := hpoll
    have hstep : s.step spy scfg py cfg (.poll now removed later) =
        s.pollFile py now removed later job deadline := by
      unfold Rig.step
      rw [hphase]
    have hreads : ReadsConvertible py s (.poll now removed later) ↔
        (s.pollFile py now removed later job deadline).phase ≠ .idle := by
      rw [Ne, pollFile_idle_iff hphase]
      unfold ReadsConvertible
      rw [hphase]
      simp only [not_and, not_exists, not_not]
    rw [hreads]
    constructor
    · intro hends hidle
      have hsucceed : CallsSucceed spy scfg py cfg s (.poll now removed later) := by
        unfold CallsSucceed
        rw [hphase]
        trivial
      have hended := hends hsucceed job (by rw [hphase]; rfl) (by rwa [hstep])
      rw [hstep, store_pollFile] at hended
      exact not_ended_self s.store job.id hended
    · intro hnot _ _ _ hidle
      rw [hstep] at hidle
      exact absurd hidle hnot
  · have hreads : ReadsConvertible py s event := by
      unfold ReadsConvertible
      split
      · next job deadline now removed later hphase =>
        exact absurd ⟨job, deadline, now, removed, later, hphase, rfl⟩ hpoll
      · trivial
    apply iff_of_true _ hreads
    intro hsucceed job hawaited hidle
    apply ended_of_post hs _ hsucceed hawaited hidle
    intro job deadline now removed later h
    exact hpoll ⟨job, deadline, now, removed, later, h⟩

variable (spy scfg py cfg)

/-- A file makes `_parse_report` return or raise `PluginIOError` exactly when it is convertible; and
    in every run of the rig, the agent whose calls succeed ends each job that it waits for exactly
    when every file that it finds in time is convertible. -/
theorem malformed_report_iff :
    (∀ file, Within IsPluginIo (parseReport py file) ↔ Convertible py file) ∧
      ∀ events, Steps (EndsJob spy scfg py cfg) (Rig.step spy scfg py cfg) .start events ↔
        Steps (ReadsConvertible py) (Rig.step spy scfg py cfg) .start events := by
  refine ⟨within_parseReport_iff py, fun events => ?_⟩
  apply steps_congr (I := FailsTerminal)
  · exact fun s event hs _ => failsTerminal_step hs event
  · exact fun s event hs => endsJob_iff hs event
  · intro job status detail h
    cases h

end

/-! ## A job that is stranded -/

/-- Every text is the report with `null` for its job. -/
def nullJobPython : AgentPython :=
  { plainAgentPython with
    loads := fun _ => .ok (.obj [("protocol", .str "ai_rig_v1"), ("job_id", .null)]) }

/-- The agent claims the job, drops the trigger, and finds the report at time 10. -/
def nullJobRun : List RigEvent :=
  [.other ⟨"Bearer t", .enqueueJob .answers 0 (fun _ => none) ⟨some [1], some "run", none, none⟩⟩,
    .claim (some (.answers, .answers, 1, 1)) (some plainJob), .clear true, .stage none,
    .start ⟨some (.answers, 2), .answer⟩, .drop 3, .plugin 1 (.text ""), .poll 10 true 10]

/-- `int` raises a `TypeError`, which leaves `_parse_report`; the agent is at rest, and the job is
    left running. -/
theorem null_job_id_stranded :
    ¬ Within IsPluginIo (parseReport nullJobPython (.text "")) ∧
      let s := after (Rig.step plainPython plainServer nullJobPython plainRig) .start nullJobRun
      s.phase = .idle ∧ s.store.jobs.rows.map (fun r => (r.id, r.status)) = [(1, .running)] := by
  refine ⟨?_, rfl, ?_⟩
  · have hparse : parseReport nullJobPython (.text "") = .error .other := rfl
    rw [hparse, within_error]
    exact fun ⟨_, h⟩ => nomatch h
  · decide +kernel

end TraxMania.RemoteTest
