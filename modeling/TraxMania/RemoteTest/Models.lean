import TraxMania.Generation.LlmSpec
import TraxMania.Lib.SortBy
import TraxMania.Lib.Table

/-
  The rows of the remote-test queue, what one statement of the job store does to a row, and the
  moves that the store means to allow.
-/

namespace TraxMania.RemoteTest

/-- `JobStatus`. -/
inductive JobStatus where
  | queued
  | claimed
  | running
  | complete
  | failed
  | timedOut
  | cancelled
deriving DecidableEq

namespace JobStatus

/-- The value of the enumeration. -/
def value : JobStatus → String
  | queued => "queued"
  | claimed => "claimed"
  | running => "running"
  | complete => "complete"
  | failed => "failed"
  | timedOut => "timed_out"
  | cancelled => "cancelled"

/-- `is_terminal(status)`. -/
def isTerminal : JobStatus → Bool
  | complete => true
  | failed => true
  | timedOut => true
  | cancelled => true
  | _ => false

/-- `_ALLOWED_TRANSITIONS`. -/
def allowed : JobStatus → List JobStatus
  | queued => [claimed, cancelled, timedOut]
  | claimed => [running, complete, failed, timedOut, cancelled]
  | running => [complete, failed, timedOut, cancelled]
  | _ => []

/-- No move leads back into the queue. -/
theorem queued_notMem_allowed (status : JobStatus) : queued ∉ status.allowed := by
  cases status <;> decide

/-- No move leads out of a terminal status. -/
theorem allowed_of_isTerminal {status : JobStatus} (h : status.isTerminal) :
    status.allowed = [] := by
  cases status <;> first | rfl | cases h

end JobStatus

/-- A row of the table `jobs`. -/
structure JobRow where
  id : Int
  runId : String
  status : JobStatus
  artifactPath : String
  artifactSize : Nat
  artifactSha256 : String
  timeoutSeconds : Int
  createdAt : Int
  claimedAt : Option Int
  completedAt : Option Int
  agentId : Option String
  metadataJson : String
  reportJson : Option String
  detail : Option String
deriving DecidableEq

namespace JobRow

/-- The columns that name the work: the run and its artifact. -/
def artifact (r : JobRow) : String × String × Nat × String :=
  (r.runId, r.artifactPath, r.artifactSize, r.artifactSha256)

/-- `SET status = 'claimed', agent_id = ?, claimed_at = ?`. -/
def claim (now : Int) (agentId : String) (r : JobRow) : JobRow :=
  { r with status := .claimed, agentId := some agentId, claimedAt := some now }

/-- The `SET` of `transition`: a value that is `NULL` leaves its column as it is. -/
def move (now : Int) (toStatus : JobStatus) (detail reportJson : Option String) (r : JobRow) : JobRow :=
  { r with
    status := toStatus
    detail := detail <|> r.detail
    reportJson := reportJson <|> r.reportJson
    completedAt := (if toStatus.isTerminal then some now else none) <|> r.completedAt }

/-- The `SET` of `sweep_timeouts`. -/
def sweep (now : Int) (r : JobRow) : JobRow :=
  { r with
    status := .timedOut
    completedAt := some now
    detail := some (r.detail.getD "" ++ " | swept by server") }

/-- The `WHERE` of `sweep_timeouts`. -/
def stale (now : Int) (r : JobRow) : Bool :=
  (r.status = .claimed || r.status = .running) &&
    (r.claimedAt.any fun claimedAt => r.timeoutSeconds < now - claimedAt)

/-- The `ORDER BY` of `claim_next`. -/
def queueKey (r : JobRow) : Int ×ₗ Int := toLex (r.createdAt, r.id)

/-- What the store means to do to a row: to leave it alone, to hand it out, to move it along the
    graph, or to time it out. -/
inductive Evolves (r : JobRow) : JobRow → Prop where
  | same : Evolves r r
  | claim (now : Int) (agentId : String) (h : r.status = .queued) : Evolves r (r.claim now agentId)
  | move (now : Int) (toStatus : JobStatus) (detail reportJson : Option String)
      (h : toStatus ∈ r.status.allowed) : Evolves r (r.move now toStatus detail reportJson)
  | sweep (now : Int) (h : r.status = .claimed ∨ r.status = .running) : Evolves r (r.sweep now)

/-- `completed_at` is set exactly in the terminal statuses. -/
def Stamped (r : JobRow) : Prop := r.completedAt.isSome ↔ r.status.isTerminal

namespace Evolves

variable {r r' : JobRow}

theorem id_eq (h : Evolves r r') : r'.id = r.id := by
  cases h <;> rfl

theorem createdAt_eq (h : Evolves r r') : r'.createdAt = r.createdAt := by
  cases h <;> rfl

theorem artifact_eq (h : Evolves r r') : r'.artifact = r.artifact := by
  cases h <;> rfl

/-- A row in a terminal status stays as it is, in every column. -/
theorem eq_of_isTerminal (h : Evolves r r') (hr : r.status.isTerminal) : r' = r := by
  cases h with
  | same => rfl
  | claim now agentId h =>
      rw [h] at hr
      cases hr
  | move now toStatus detail reportJson h =>
      rw [JobStatus.allowed_of_isTerminal hr] at h
      cases h
  | sweep now h =>
      obtain h | h := h
      · rw [h] at hr
        cases hr
      · rw [h] at hr
        cases hr

/-- A row that is queued afterwards has not been touched. -/
theorem eq_of_queued (h : Evolves r r') (hr : r'.status = .queued) : r' = r := by
  cases h with
  | same => rfl
  | claim now agentId h => cases hr
  | move now toStatus detail reportJson h =>
      rw [show toStatus = .queued from hr] at h
      exact absurd h (JobStatus.queued_notMem_allowed _)
  | sweep now h => cases hr

theorem stamped (h : Evolves r r') (hr : r.Stamped) : r'.Stamped := by
  unfold Stamped at hr ⊢
  cases h with
  | same => exact hr
  | claim now agentId h =>
      rw [h] at hr
      exact hr
  | move now toStatus detail reportJson h =>
      show ((if toStatus.isTerminal then some now else none) <|> r.completedAt).isSome ↔ toStatus.isTerminal
      by_cases hto : toStatus.isTerminal
      · simp [hto]
      · have hopen : ¬ r.status.isTerminal := by
          intro hterminal
          rw [JobStatus.allowed_of_isTerminal hterminal] at h
          cases h
        simpa [hto] using mt hr.mp hopen
  | sweep now h =>
      exact iff_of_true rfl rfl

end Evolves

end JobRow

end TraxMania.RemoteTest
