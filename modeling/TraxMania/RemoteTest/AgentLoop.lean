import TraxMania.RemoteTest.Rig

/-
  The main loop of the agent, turn by turn: what its calls may do, which exceptions each part of the
  loop catches, and exactly when none of them leaves it.
-/

namespace TraxMania.RemoteTest

open TraxMania.Generation TraxMania.Generation.Llm Lib.Outcome Lib.Transition

/-! ## Calls -/

/-- What becomes of an HTTP call. -/
inductive HttpOutcome where
  /-- `requests.RequestException`: no response. -/
  | raised
  /-- A response; `body` is what `r.json()` returns, `none` where it raises. -/
  | response (statusCode : Nat) (body : Option Json)

/-- The exceptions of the client. -/
inductive ClientError where
  /-- `RemoteTestHTTPError`. -/
  | http (statusCode : Nat)
  /-- `requests.RequestException`, also of a body that is no JSON. -/
  | request
  | keyError
  | python (e : PyError)
deriving DecidableEq

/-- `r.json()`. -/
def jsonBody : Option Json → Except ClientError Json
  | some body => .ok body
  | none => .error .request

/-- `post_heartbeat(…)`. -/
def postHeartbeat : HttpOutcome → Except ClientError Json
  | .raised => .error .request
  | .response statusCode body =>
    if statusCode ≠ 200 then .error (.http statusCode) else jsonBody body

section

variable (py : AgentPython)

/-- `b[key]`. -/
def subscript (key : String) : Json → Except ClientError Json
  | .obj entries =>
    match entries.lookup key with
    | some value => .ok value
    | none => .error .keyError
  | _ => .error (.python .typeError)

/-- `int(b[key])`. -/
def intItem (key : String) (b : Json) : Except ClientError Int := do
  let value ← subscript key b
  match value.toInt py.toPython with
  | .ok n => return n
  | .error e => .error (.python e)

/-- `str(b[key])`. -/
def strItem (key : String) (b : Json) : Except ClientError String := do
  let value ← subscript key b
  return strOf py value

/-- An item of a sequence that `dict` takes for a key and its value. -/
def pairOf (item : Json) : Except PyError (Json × Json) := do
  match ← item.iterate with
  | [.arr _, _] => .error .typeError
  | [.obj _, _] => .error .typeError
  | [key, value] => .ok (key, value)
  | _ => .error .valueError

/-- `dict(value)`. -/
def dictOf : Json → Except PyError (List (Json × Json))
  | .obj entries => .ok (entries.map fun kv => (.str kv.1, kv.2))
  | value => do
    let items ← value.iterate
    items.mapM pairOf

/-- `dict(b.get("metadata") or {})`. -/
def claimMetadata : Json → Except ClientError (List (Json × Json))
  | .obj entries =>
    let value := field entries "metadata" .null
    match dictOf (if truthy value then value else .obj []) with
    | .ok items => .ok items
    | .error e => .error (.python e)
  | _ => .error (.python .typeError)

/-- `ClaimedJob` of the body of a response. -/
def readClaim (b : Json) : Except ClientError ClaimedJob := do
  let id ← intItem py "id" b
  let runId ← strItem py "run_id" b
  let artifactUrl ← strItem py "artifact_url" b
  let artifactSize ← intItem py "artifact_size" b
  let artifactSha256 ← strItem py "artifact_sha256" b
  let timeoutSeconds ← intItem py "timeout_seconds" b
  let metadata ← claimMetadata b
  return ⟨id, runId, artifactUrl, artifactSize, artifactSha256, timeoutSeconds, metadata⟩

/-- `RemoteTestClient.claim_next(agent_id)`. -/
def clientClaimNext : HttpOutcome → Except ClientError (Option ClaimedJob)
  | .raised => .error .request
  | .response statusCode body =>
    if statusCode = 204 then .ok none
    else if statusCode ≠ 200 then .error (.http statusCode)
    else do
      let b ← jsonBody body
      let job ← readClaim py b
      return some job

/-! ## The loop -/

/-- What `run_agent` reads of its arguments. -/
structure LoopConfig where
  queueInterval : JsonFloat
  heartbeatInterval : JsonFloat
  maxIterations : Option Int

/-- One turn of the loop: whether a shutdown has been requested before it, the time of its start,
    and what its calls do. -/
structure Turn where
  shutdown : Bool
  now : ℚ
  heartbeat : HttpOutcome
  claim : HttpOutcome
  /-- `_handle_job` raises. -/
  jobRaises : Bool

/-- `_LoopState`, or how `run_agent` has ended. -/
inductive LoopState where
  | looping (iterations : Int) (lastHeartbeatAt : ℚ)
  /-- `run_agent` has returned 0. -/
  | returned
  | raised (e : ClientError)
deriving DecidableEq

/-- The heartbeat is due. -/
def heartbeatDue (interval : JsonFloat) (lastHeartbeatAt now : ℚ) : Bool :=
  match interval with
  | .finite x => ¬ (now - lastHeartbeatAt < x)
  | .infinite negative => negative
  | .nan => true

/-- `_maybe_heartbeat(…)`: the time of the last heartbeat. -/
def maybeHeartbeat (cfg : LoopConfig) (turn : Turn) (lastHeartbeatAt : ℚ) :
    Except ClientError ℚ :=
  if heartbeatDue cfg.heartbeatInterval lastHeartbeatAt turn.now then
    match postHeartbeat turn.heartbeat with
    | .ok _ => .ok turn.now
    | .error (.http _) => .ok lastHeartbeatAt
    | .error e => .error e
  else .ok lastHeartbeatAt

/-- The greatest number of seconds that `time.sleep` takes. -/
def sleepLimit : ℚ := 9223372036854775807 / 1000000000

/-- `time.sleep(seconds)`. -/
def sleep : JsonFloat → Except ClientError Unit
  | .finite x =>
    if x < 0 then .error (.python .valueError)
    else if sleepLimit < x then .error (.python .overflowError)
    else .ok ()
  | .infinite _ => .error (.python .overflowError)
  | .nan => .error (.python .valueError)

/-- The job of a turn, if there is one. -/
def turnJob (turn : Turn) : Except ClientError (Option ClaimedJob) :=
  match clientClaimNext py turn.claim with
  | .ok job => .ok job
  | .error (.http _) => .ok none
  | .error e => .error e

/-- What the loop does with the job, or without one. -/
def workOrSleep (cfg : LoopConfig) (turn : Turn) : Option ClaimedJob → Except ClientError Unit
  | some _ =>
    match turn.jobRaises with
    | true => .ok () -- logged as "job %d raised — continuing"
    | false => .ok ()
  | none => sleep cfg.queueInterval

/-- The body of the loop: the time of the last heartbeat. -/
def turnBody (cfg : LoopConfig) (turn : Turn) (lastHeartbeatAt : ℚ) : Except ClientError ℚ := do
  let last ← maybeHeartbeat cfg turn lastHeartbeatAt
  let job ← turnJob py turn
  workOrSleep cfg turn job
  return last

/-- One turn of `run_agent`. -/
def takeTurn (cfg : LoopConfig) (s : LoopState) (turn : Turn) : LoopState :=
  match s with
  | .looping iterations lastHeartbeatAt =>
    if turn.shutdown then .returned
    else
      match turnBody py cfg turn lastHeartbeatAt with
      | .error e => .raised e
      | .ok last =>
        if cfg.maxIterations.any fun m => m ≤ iterations + 1 then .returned
        else .looping (iterations + 1) last
  | ended => ended

/-- The loop after a successful start-up. -/
def loopStart : LoopState := .looping 0 0

/-- The agent has ended with an exception. -/
def LoopState.Raised (s : LoopState) : Prop := ∃ e, s = .raised e

theorem not_raised_returned : ¬ LoopState.Raised .returned := fun ⟨_, h⟩ => nomatch h

theorem not_raised_looping {iterations : Int} {lastHeartbeatAt : ℚ} :
    ¬ LoopState.Raised (.looping iterations lastHeartbeatAt) := fun ⟨_, h⟩ => nomatch h

/-! ## What each part of the loop lets through -/

/-- A heartbeat that does not leave the loop: a refused one, or a response with a JSON body. -/
def HttpOutcome.GoodHeartbeat : HttpOutcome → Prop
  | .raised => False
  | .response statusCode body => statusCode = 200 → body.isSome

/-- An answer to the question for work that does not leave the loop: the body of a job that can be
    read; or any other response, and a pause that `time.sleep` takes. -/
def HttpOutcome.GoodClaim (cfg : LoopConfig) : HttpOutcome → Prop
  | .raised => False
  | .response statusCode body =>
    if statusCode = 200 then ∃ b, body = some b ∧ Returns (readClaim py b)
    else ∃ x, cfg.queueInterval = .finite x ∧ 0 ≤ x ∧ x ≤ sleepLimit

/-- The calls of the turn do not leave the loop. -/
def Benign (cfg : LoopConfig) (s : LoopState) (turn : Turn) : Prop :=
  match s with
  | .looping _ lastHeartbeatAt =>
    turn.shutdown ∨
      ((heartbeatDue cfg.heartbeatInterval lastHeartbeatAt turn.now →
          turn.heartbeat.GoodHeartbeat) ∧
        turn.claim.GoodClaim py cfg)
  | _ => True

variable {py} {cfg : LoopConfig} {turn : Turn} {lastHeartbeatAt : ℚ}

theorem returns_maybeHeartbeat_iff (cfg : LoopConfig) (turn : Turn) (lastHeartbeatAt : ℚ) :
    Returns (maybeHeartbeat cfg turn lastHeartbeatAt) ↔
    (heartbeatDue cfg.heartbeatInterval lastHeartbeatAt turn.now →
      turn.heartbeat.GoodHeartbeat) := by
  unfold maybeHeartbeat
  by_cases hdue : heartbeatDue cfg.heartbeatInterval lastHeartbeatAt turn.now
  · rw [if_pos hdue, imp_iff_right hdue]
    cases turn.heartbeat with
    | raised => exact iff_of_false (not_returns_error _) fun h => h
    | response statusCode body =>
        simp only [postHeartbeat, HttpOutcome.GoodHeartbeat]
        by_cases hstatus : statusCode = 200
        · rw [if_neg (not_not.mpr hstatus), imp_iff_right hstatus]
          cases body with
          | none => exact iff_of_false (not_returns_error _) nofun
          | some b => exact iff_of_true (returns_ok _) rfl
        · rw [if_pos hstatus]
          exact iff_of_true (returns_ok _) fun h => absurd h hstatus
  · rw [if_neg hdue]
    exact iff_of_true (returns_ok _) fun h => absurd h hdue

theorem returns_sleep_iff (seconds : JsonFloat) :
    Returns (sleep seconds) ↔ ∃ x, seconds = .finite x ∧ 0 ≤ x ∧ x ≤ sleepLimit := by
  cases seconds with
  | finite x =>
      simp only [sleep]
      by_cases hneg : x < 0
      · rw [if_pos hneg]
        apply iff_of_false (not_returns_error _)
        rintro ⟨y, hy, hy0, -⟩
        rw [← JsonFloat.finite.inj hy] at hy0
        exact absurd hneg (not_lt.mpr hy0)
      · rw [if_neg hneg]
        by_cases hlong : sleepLimit < x
        · rw [if_pos hlong]
          apply iff_of_false (not_returns_error _)
          rintro ⟨y, hy, -, hy1⟩
          rw [← JsonFloat.finite.inj hy] at hy1
          exact absurd hlong (not_lt.mpr hy1)
        · rw [if_neg hlong]
          exact iff_of_true (returns_ok _) ⟨x, rfl, not_lt.mp hneg, not_lt.mp hlong⟩
  | infinite negative => exact iff_of_false (not_returns_error _) fun ⟨x, h, _⟩ => nomatch h
  | nan => exact iff_of_false (not_returns_error _) fun ⟨x, h, _⟩ => nomatch h

theorem turnJob_of_job {b : Json} (h : turn.claim = .response 200 (some b)) :
    turnJob py turn = match readClaim py b with
      | .ok job => .ok (some job)
      | .error (.http _) => .ok none
      | .error e => .error e := by
  unfold turnJob
  rw [h]
  have hread : clientClaimNext py (.response 200 (some b)) =
      (readClaim py b >>= fun job => .ok (some job)) := rfl
  rw [hread]
  cases readClaim py b with
  | ok job => rfl
  | error e => cases e <;> rfl

theorem turnJob_of_refused {statusCode : Nat} {body : Option Json} (hstatus : statusCode ≠ 200)
    (h : turn.claim = .response statusCode body) : turnJob py turn = .ok none := by
  unfold turnJob
  rw [h]
  simp only [clientClaimNext]
  by_cases hempty : statusCode = 204
  · rw [if_pos hempty]
  · rw [if_neg hempty, if_pos hstatus]

theorem returns_workOrSleep_some (cfg : LoopConfig) (turn : Turn) (job : ClaimedJob) :
    Returns (workOrSleep cfg turn (some job)) := by
  simp only [workOrSleep]
  cases turn.jobRaises with
  | true => exact returns_ok _
  | false => exact returns_ok _

/-- The exception is not that of a refused call. -/
def NotHttp (e : ClientError) : Prop := ∀ statusCode, e ≠ .http statusCode

/-- No part of the reading of a job raises the exception of a refused call. -/
theorem readClaim_notHttp (b : Json) : Within NotHttp (readClaim py b) := by
  have hsub : ∀ key, Within NotHttp (subscript key b) := by
    intro key
    unfold subscript
    split
    · split
      · exact within_ok _
      · exact within_error.mpr nofun
    · exact within_error.mpr nofun
  have hint : ∀ key, Within NotHttp (intItem py key b) := by
    intro key
    unfold intItem
    rw [within_bind]
    refine ⟨hsub key, fun value _ => ?_⟩
    split
    · exact within_ok _
    · exact within_error.mpr nofun
  have hstr : ∀ key, Within NotHttp (strItem py key b) := by
    intro key
    unfold strItem
    rw [within_bind]
    exact ⟨hsub key, fun value _ => within_ok _⟩
  have hmeta : Within NotHttp (claimMetadata b) := by
    unfold claimMetadata
    split
    · dsimp only
      split
      · exact within_ok _
      · exact within_error.mpr nofun
    · exact within_error.mpr nofun
  unfold readClaim
  simp only [within_bind]
  exact ⟨hint _, fun _ _ => ⟨hstr _, fun _ _ => ⟨hstr _, fun _ _ => ⟨hint _, fun _ _ =>
    ⟨hstr _, fun _ _ => ⟨hint _, fun _ _ => ⟨hmeta, fun _ _ => within_ok _⟩⟩⟩⟩⟩⟩⟩

/-- The job is read and worked on, or the loop pauses. -/
theorem returns_work_iff (py : AgentPython) (cfg : LoopConfig) (turn : Turn) :
    Returns (turnJob py turn >>= workOrSleep cfg turn) ↔ turn.claim.GoodClaim py cfg := by
  cases hclaim : turn.claim with
  | raised =>
      have hjob : turnJob py turn = .error .request := by
        unfold turnJob
        rw [hclaim]
        rfl
      rw [hjob]
      exact iff_of_false (not_returns_error _) fun h => h
  | response statusCode body =>
      simp only [HttpOutcome.GoodClaim]
      by_cases hstatus : statusCode = 200
      · subst hstatus
        rw [if_pos rfl]
        cases body with
        | none =>
            have hjob : turnJob py turn = .error .request := by
              unfold turnJob
              rw [hclaim]
              rfl
            rw [hjob]
            apply iff_of_false (not_returns_error _)
            intro ⟨b, hb, _⟩
            exact nomatch hb
        | some b =>
            rw [turnJob_of_job hclaim]
            cases hread : readClaim py b with
            | ok job =>
                apply iff_of_true (returns_workOrSleep_some cfg turn job)
                exact ⟨b, rfl, job, hread⟩
            | error e =>
                have hraise : NotHttp e := readClaim_notHttp b e hread
                apply iff_of_false
                · cases e with
                  | http c => exact absurd rfl (hraise c)
                  | request => exact not_returns_error _
                  | keyError => exact not_returns_error _
                  | python e => exact not_returns_error _
                · intro ⟨b', hb, hreturns⟩
                  obtain rfl := Option.some.inj hb
                  rw [hread] at hreturns
                  exact not_returns_error e hreturns
      · rw [if_neg hstatus, turnJob_of_refused hstatus hclaim, ok_bind]
        exact returns_sleep_iff cfg.queueInterval

theorem returns_turnBody_iff : Returns (turnBody py cfg turn lastHeartbeatAt) ↔
    (heartbeatDue cfg.heartbeatInterval lastHeartbeatAt turn.now → turn.heartbeat.GoodHeartbeat) ∧
      turn.claim.GoodClaim py cfg := by
  unfold turnBody
  rw [← returns_maybeHeartbeat_iff cfg turn lastHeartbeatAt, ← returns_work_iff py cfg turn]
  apply returns_bind
  intro last _
  rw [returns_bind_iff, returns_bind_iff]
  apply exists_congr
  intro job
  apply and_congr_right
  intro _
  rw [returns_bind_iff]
  constructor
  · intro ⟨u, hu, _⟩
    exact ⟨u, hu⟩
  · intro ⟨u, hu⟩
    exact ⟨u, hu, returns_pure last⟩

/-- A turn does not raise exactly when its calls do not leave the loop. -/
theorem not_raised_takeTurn_iff (py : AgentPython) (cfg : LoopConfig) (turn : Turn)
    {s : LoopState} (hs : ¬ s.Raised) :
    ¬ (takeTurn py cfg s turn).Raised ↔ Benign py cfg s turn := by
  cases s with
  | looping iterations lastHeartbeatAt =>
      simp only [takeTurn, Benign]
      by_cases hshutdown : turn.shutdown
      · rw [if_pos hshutdown]
        exact iff_of_true not_raised_returned (.inl hshutdown)
      · rw [if_neg hshutdown, or_iff_right hshutdown, ← returns_turnBody_iff]
        cases hbody : turnBody py cfg turn lastHeartbeatAt with
        | error e => exact iff_of_false (not_not.mpr ⟨e, rfl⟩) (not_returns_error e)
        | ok last =>
            apply iff_of_true _ (returns_ok last)
            dsimp only
            split
            · exact not_raised_returned
            · exact not_raised_looping
  | returned => exact iff_of_true hs trivial
  | raised e => exact absurd ⟨e, rfl⟩ hs

end

/-! ## Every run -/

section

variable {py : AgentPython} {cfg : LoopConfig}

/-- After these turns the agent has not raised; it loops while nothing tells it to stop, and it has
    returned only for a shutdown or after `max_iterations`. -/
def Online (cfg : LoopConfig) (turns : List Turn) : LoopState → Prop
  | .looping iterations _ =>
    iterations = turns.length ∧ (∀ turn ∈ turns, ¬ turn.shutdown) ∧
      ∀ m, cfg.maxIterations = some m → turns = [] ∨ turns.length < m
  | .returned =>
    (∃ turn ∈ turns, turn.shutdown) ∨ ∃ m, cfg.maxIterations = some m ∧ m ≤ turns.length
  | .raised _ => False

theorem not_raised_of_online {turns : List Turn} {s : LoopState} (h : Online cfg turns s) :
    ¬ s.Raised := by
  intro ⟨e, he⟩
  rw [he] at h
  exact h

/-- A turn that does not raise goes on as the shutdown and `max_iterations` say. -/
theorem online_takeTurn {turns : List Turn} {s : LoopState} {turn : Turn} (h : Online cfg turns s)
    (hnext : ¬ (takeTurn py cfg s turn).Raised) :
    Online cfg (turns ++ [turn]) (takeTurn py cfg s turn) := by
  cases s with
  | looping iterations lastHeartbeatAt =>
      obtain ⟨hcount, hnone, hmore⟩ := h
      have hlength : ((turns ++ [turn]).length : Int) = iterations + 1 := by
        rw [hcount, List.length_append]
        rfl
      simp only [takeTurn] at hnext ⊢
      by_cases hshutdown : turn.shutdown
      · rw [if_pos hshutdown]
        exact .inl ⟨turn, List.mem_append_right _ (List.mem_singleton_self turn), hshutdown⟩
      · rw [if_neg hshutdown] at hnext ⊢
        cases hbody : turnBody py cfg turn lastHeartbeatAt with
        | error e =>
            rw [hbody] at hnext
            exact absurd ⟨e, rfl⟩ hnext
        | ok last =>
            dsimp only
            by_cases hmax : cfg.maxIterations.any fun m => decide (m ≤ iterations + 1)
            · rw [if_pos hmax]
              obtain ⟨m, hm, hle⟩ := Option.any_eq_true _ _ |>.mp hmax
              refine .inr ⟨m, hm, ?_⟩
              rw [hlength]
              exact of_decide_eq_true hle
            · rw [if_neg hmax]
              refine ⟨hlength.symm, ?_, ?_⟩
              · intro t ht
                rcases List.mem_append.mp ht with hold | hnew
                · exact hnone t hold
                · rwa [List.mem_singleton.mp hnew]
              · intro m hm
                right
                rw [hlength]
                rw [hm] at hmax
                by_contra hge
                apply hmax
                exact decide_eq_true (not_lt.mp hge)
  | returned =>
      rcases h with ⟨t, ht, hshutdown⟩ | ⟨m, hm, hle⟩
      · exact .inl ⟨t, List.mem_append_left _ ht, hshutdown⟩
      · refine .inr ⟨m, hm, ?_⟩
        rw [List.length_append]
        omega
  | raised e => exact h.elim

/-- An exception that has left the loop stays out of it. -/
theorem raised_after {s : LoopState} (h : s.Raised) (turns : List Turn) :
    (after (takeTurn py cfg) s turns).Raised := by
  obtain ⟨e, rfl⟩ := h
  induction turns with
  | nil => exact ⟨e, rfl⟩
  | cons turn turns ih => exact ih

/-- What happens after the turns of a run that is online so far. -/
theorem online_after_iff (turns : List Turn) : ∀ (before : List Turn) (s : LoopState),
    Online cfg before s →
      (Online cfg (before ++ turns) (after (takeTurn py cfg) s turns) ↔
        Steps (Benign py cfg) (takeTurn py cfg) s turns) := by
  induction turns with
  | nil =>
      intro before s h
      rw [List.append_nil]
      exact iff_of_true h trivial
  | cons turn turns ih =>
      intro before s h
      have hiff := not_raised_takeTurn_iff py cfg turn (not_raised_of_online h)
      rw [after_cons]
      by_cases hnext : (takeTurn py cfg s turn).Raised
      · apply iff_of_false
        · intro honline
          exact not_raised_of_online honline (raised_after hnext turns)
        · intro hsteps
          exact hiff.mpr hsteps.1 hnext
      · have honline : Online cfg (before ++ [turn]) (takeTurn py cfg s turn) :=
          online_takeTurn h hnext
        rw [List.append_cons, ih _ _ honline]
        exact (and_iff_right (hiff.mp hnext)).symm

/-- The agent stays online through a run exactly when no call of one of its turns raises an
    exception that the loop lets through. -/
theorem online_iff (py : AgentPython) (cfg : LoopConfig) (turns : List Turn) :
    Online cfg turns (after (takeTurn py cfg) loopStart turns) ↔
      Steps (Benign py cfg) (takeTurn py cfg) loopStart turns := by
  have hstart : Online cfg [] loopStart := ⟨rfl, nofun, fun m _ => .inl rfl⟩
  exact online_after_iff turns [] loopStart hstart

end

/-- The server cannot be reached when the agent asks for work. -/
def refusedConnection : Turn := ⟨false, 1000000, .response 200 (some (.obj [])), .raised, false⟩

/-- The exception of one such call ends the agent. -/
theorem connection_ends_agent :
    let cfg : LoopConfig := ⟨.finite 2, .finite 15, none⟩
    let s := after (takeTurn plainAgentPython cfg) loopStart [refusedConnection]
    s = .raised .request ∧ ¬ Online cfg [refusedConnection] s := by
  intro cfg s
  have hraised : s = .raised .request := by decide +kernel
  refine ⟨hraised, ?_⟩
  rw [hraised]
  exact fun h => h

end TraxMania.RemoteTest
