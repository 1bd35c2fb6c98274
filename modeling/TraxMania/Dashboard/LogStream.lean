import Mathlib.Data.Rat.Defs
import Mathlib.Algebra.Order.Ring.Unbundled.Rat
import Mathlib.Data.List.DropRight
import Mathlib.Tactic.NormNum
import TraxMania.Lib.Transition

/-
  `tools/dashboard_web/actions.py`: the log of an action run, the worker that writes it and the
  stream that follows it. A lock section is one step; the clock readings are inputs, over exact
  rationals.

  The log is a deque with a cap and the cursor of the stream is an index into it. So the stream
  yields as many lines as its cursor counts, never more than the cap (`following_after`): a run
  that writes more than that loses lines however often the stream polls.
-/

namespace TraxMania.Dashboard

open Lib.Transition

/-! ## The run and its worker -/

/-- `_LOG_TAIL_SIZE`. -/
@[irreducible] def logTailSize : ℕ := 2000

theorem logTailSize_eq : logTailSize = 2000 := by
  unfold logTailSize
  rfl

/-- `deque.append` on a deque of at most `maxlen` entries: the oldest ones leave. -/
def dequeAppend {α : Type*} (maxlen : ℕ) (q : List α) (x : α) : List α :=
  (q ++ [x]).drop (q.length + 1 - maxlen)

theorem length_dequeAppend {α : Type*} (maxlen : ℕ) (q : List α) (x : α) :
    (dequeAppend maxlen q x).length = min (q.length + 1) maxlen := by
  simp only [dequeAppend, List.length_drop, List.length_append, List.length_singleton]
  omega

/-- The last `maxlen` of the entries written are the deque's, whatever is written next. -/
theorem dequeAppend_drop {α : Type*} (maxlen : ℕ) (written : List α) (x : α) :
    dequeAppend maxlen (written.drop (written.length - maxlen)) x =
      (written ++ [x]).drop ((written ++ [x]).length - maxlen) := by
  have hle : written.length - maxlen ≤ written.length := by omega
  rw [dequeAppend, ← List.drop_append_of_le_length hle, List.drop_drop]
  congr 1
  simp only [List.length_drop, List.length_append, List.length_singleton]
  omega

/-- `ActionRun.status`. -/
inductive Status where
  | running
  | success
  | failed
deriving DecidableEq

/-- What `ActionRun` holds of the run's progress. -/
structure ActionRun where
  status : Status
  exitCode : Option ℤ
  logTail : List String
  logTail_le : logTail.length ≤ logTailSize

namespace ActionRun

/-- The run that `ActionWorker.start` makes. -/
def new : ActionRun := ⟨.running, none, [], Nat.zero_le _⟩

/-- `append_log(line)`. -/
def appendLog (line : String) (run : ActionRun) : ActionRun :=
  { run with
    logTail := dequeAppend logTailSize run.logTail line
    logTail_le := by rw [length_dequeAppend]; exact min_le_right _ _ }

/-- `ActionWorker._finish(run, exit_code)`. -/
def finish (exitCode : ℤ) (run : ActionRun) : ActionRun :=
  { run with exitCode := some exitCode, status := if exitCode = 0 then .success else .failed }

@[simp] theorem appendLog_status (line : String) (run : ActionRun) :
    (run.appendLog line).status = run.status := rfl

theorem appendLog_logTail (line : String) (run : ActionRun) :
    (run.appendLog line).logTail = dequeAppend logTailSize run.logTail line := rfl

@[simp] theorem finish_logTail (exitCode : ℤ) (run : ActionRun) :
    (run.finish exitCode).logTail = run.logTail := rfl

@[simp] theorem finish_status_ne (exitCode : ℤ) (run : ActionRun) :
    (run.finish exitCode).status ≠ .running := by
  simp only [finish]
  split <;> decide

end ActionRun

/-- A lock section: one of the worker's, or a poll of the stream with its clock reading. -/
inductive Section where
  | appendLog (line : String)
  | finish (exitCode : ℤ)
  | poll (now : ℚ)
deriving DecidableEq

/-- The child process: the lines it prints, then its exit code or the exception that ends the
reading, as its type and text. -/
structure Child where
  stdout : List String
  outcome : Except (String × String) ℤ

/-- `_default_runner(argv, run)`, as its lock sections. -/
def defaultRunner (executable : String) (popen : List String → Child) (argv : List String) :
    List Section :=
  if argv.take 1 = ["_noop"] then
    [.appendLog ("[noop] " ++ " ".intercalate (argv.drop 1)), .finish 0]
  else
    let cmd := if argv.take 1 = ["_shell"] then argv.drop 1
      else [executable, "-m", "src.cli"] ++ argv
    let child := popen cmd
    .appendLog ("$ " ++ " ".intercalate cmd) ::
      child.stdout.map (fun line => .appendLog (String.ofList (line.toList.rdropWhile (· = '\n'))))
      ++ match child.outcome with
        | .ok rc => [.finish rc]
        | .error (type, text) =>
          [.appendLog ("[worker error] " ++ type ++ ": " ++ text), .finish 1]

/-- The runner writes its lines first and finishes once, last. -/
theorem defaultRunner_eq (executable : String) (popen : List String → Child)
    (argv : List String) : ∃ (lines : List String) (exitCode : ℤ),
      defaultRunner executable popen argv = lines.map .appendLog ++ [.finish exitCode] := by
  rw [defaultRunner]
  split
  · exact ⟨[_], 0, rfl⟩
  · dsimp only
    generalize (if argv.take 1 = ["_shell"] then argv.drop 1
      else [executable, "-m", "src.cli"] ++ argv) = cmd
    obtain ⟨stdout, outcome⟩ := popen cmd
    have hlines : stdout.map (fun line =>
        Section.appendLog (String.ofList (line.toList.rdropWhile (· = '\n')))) =
        (stdout.map fun line => String.ofList (line.toList.rdropWhile (· = '\n'))).map
          .appendLog := by
      rw [List.map_map]
      rfl
    rw [hlines]
    cases outcome with
    | ok rc => exact ⟨("$ " ++ " ".intercalate cmd) :: _, rc, rfl⟩
    | error exc =>
      refine ⟨("$ " ++ " ".intercalate cmd) ::
        ((stdout.map fun line => String.ofList (line.toList.rdropWhile (· = '\n'))) ++
          ["[worker error] " ++ exc.1 ++ ": " ++ exc.2]), 1, ?_⟩
      simp

/-! ## The stream -/

/-- The locals of `tail_stream`, the lines it has yielded and whether it has returned. -/
structure TailStream where
  cursor : ℕ
  idleDeadline : ℚ
  yielded : List String
  returned : Bool

namespace TailStream

/-- `tail_stream(run, start_offset=…)` before its first poll. -/
def new (startOffset : ℤ) (idleTimeoutSeconds now : ℚ) : TailStream :=
  ⟨(max 0 startOffset).toNat, now + idleTimeoutSeconds, [], false⟩

/-- The poll finds nothing new in a run that goes on. -/
def Idle (run : ActionRun) (stream : TailStream) : Prop :=
  stream.returned = false ∧ run.logTail.length ≤ stream.cursor ∧ run.status = .running

/-- One turn of the loop: the snapshot, the lines it yields from it, the two returns. -/
def poll (idleTimeoutSeconds now : ℚ) (run : ActionRun) (stream : TailStream) : TailStream :=
  if stream.returned then stream
  else if stream.cursor < run.logTail.length then
    { stream with
      yielded := stream.yielded ++ run.logTail.drop stream.cursor
      cursor := run.logTail.length
      idleDeadline := now + idleTimeoutSeconds }
  else if run.status ≠ .running then { stream with returned := true }
  else if stream.idleDeadline < now then { stream with returned := true }
  else stream

end TailStream

/-- The run and the stream that follows it. -/
structure System where
  run : ActionRun
  stream : TailStream

namespace System

/-- A fresh run and a stream from offset 0. -/
def new (idleTimeoutSeconds now : ℚ) : System := ⟨.new, .new 0 idleTimeoutSeconds now⟩

/-- One lock section. -/
def step (idleTimeoutSeconds : ℚ) (s : System) : Section → System
  | .appendLog line => { s with run := s.run.appendLog line }
  | .finish exitCode => { s with run := s.run.finish exitCode }
  | .poll now => { s with stream := s.stream.poll idleTimeoutSeconds now s.run }

/-- No poll of an idle stream comes after the deadline. -/
def InTime (s : System) : Section → Prop
  | .poll now => s.stream.Idle s.run → now ≤ s.stream.idleDeadline
  | _ => True

/-- And the worker writes and finishes while the run is running. -/
def Orderly (s : System) : Section → Prop
  | .poll now => s.InTime (.poll now)
  | _ => s.run.status = .running

end System

/-- The lines that the sections append. -/
def appended (sections : List Section) : List String :=
  sections.filterMap fun
    | .appendLog line => some line
    | _ => none

@[simp] theorem appended_append (sections more : List Section) :
    appended (sections ++ more) = appended sections ++ appended more :=
  List.filterMap_append

@[simp] theorem appended_appends (lines : List String) :
    appended (lines.map .appendLog) = lines := by
  rw [appended, List.filterMap_map]
  exact List.filterMap_some

/-- The sections of the worker. -/
def workerSections (sections : List Section) : List Section :=
  sections.filter fun
    | .poll _ => false
    | _ => true

theorem orderly_of_polls {idleTimeoutSeconds : ℚ} {sections : List Section} {s : System}
    (hpolls : workerSections sections = [])
    (h : Steps System.InTime (System.step idleTimeoutSeconds) s sections) :
    Steps System.Orderly (System.step idleTimeoutSeconds) s sections := by
  induction sections generalizing s with
  | nil => trivial
  | cons e sections ih =>
    cases e with
    | appendLog line => exact (List.cons_ne_nil _ _ hpolls).elim
    | finish exitCode => exact (List.cons_ne_nil _ _ hpolls).elim
    | poll now => exact ⟨h.1, ih hpolls h.2⟩

/-- A worker that writes its lines and then finishes, among polls in time. -/
theorem orderly_of_worker {idleTimeoutSeconds : ℚ} {lines : List String} {exitCode : ℤ}
    {sections : List Section} {s : System} (hs : s.run.status = .running)
    (hworker : workerSections sections <+: lines.map .appendLog ++ [.finish exitCode])
    (h : Steps System.InTime (System.step idleTimeoutSeconds) s sections) :
    Steps System.Orderly (System.step idleTimeoutSeconds) s sections := by
  induction sections generalizing lines s with
  | nil => trivial
  | cons e sections ih =>
    cases e with
    | poll now => exact ⟨h.1, ih hs hworker h.2⟩
    | appendLog line =>
      cases lines with
      | nil => cases (List.cons_prefix_cons.mp hworker).1
      | cons _ lines => exact ⟨hs, ih hs (List.cons_prefix_cons.mp hworker).2 h.2⟩
    | finish code =>
      cases lines with
      | nil =>
        have hnone := List.prefix_nil.mp (List.cons_prefix_cons.mp hworker).2
        exact ⟨hs, orderly_of_polls hnone h.2⟩
      | cons _ lines => cases (List.cons_prefix_cons.mp hworker).1

/-! ## What the stream promises -/

/-- At most `_LOG_TAIL_SIZE` lines are appended between two consecutive polls; `count` of them
since the last one. -/
def Paced : ℕ → List Section → Prop
  | _, [] => True
  | count, .appendLog _ :: rest => Paced (count + 1) rest
  | count, .finish _ :: rest => Paced count rest
  | count, .poll _ :: rest => count ≤ logTailSize ∧ Paced 0 rest

/-- The state after the lock sections. -/
def followed (idleTimeoutSeconds start : ℚ) (sections : List Section) : System :=
  after (System.step idleTimeoutSeconds) (.new idleTimeoutSeconds start) sections

/-- The interleavings of a worker and the polls of one stream that never times out. -/
structure Schedule (idleTimeoutSeconds start : ℚ) (sections : List Section) : Prop where
  worker : ∃ (lines : List String) (exitCode : ℤ),
    workerSections sections <+: lines.map .appendLog ++ [.finish exitCode]
  inTime : Steps System.InTime (System.step idleTimeoutSeconds) (.new idleTimeoutSeconds start)
    sections
  paced : Paced 0 sections

/-- The stream yields the lines once each and in order, and when it returns the run has finished
and all of them are out. -/
def LosesNoLine (idleTimeoutSeconds start : ℚ) (sections : List Section) : Prop :=
  ∀ before, before <+: sections →
    let s := followed idleTimeoutSeconds start before
    s.stream.yielded <+: appended before ∧
      (s.stream.returned = true →
        s.run.status ≠ .running ∧ s.stream.yielded = appended before)

/-- What holds of the system once the lines `written` are appended. -/
structure Following (written : List String) (s : System) : Prop where
  logTail : s.run.logTail = written.drop (written.length - logTailSize)
  length_yielded : s.stream.yielded.length = s.stream.cursor
  cursor_le : s.stream.cursor ≤ s.run.logTail.length
  yielded : written.length ≤ logTailSize → s.stream.yielded = written.take s.stream.cursor
  finished : s.stream.returned = true → s.run.status ≠ .running
  caughtUp : s.stream.returned = true → s.run.logTail.length = s.stream.cursor

variable {idleTimeoutSeconds start : ℚ} {written : List String} {s : System}

theorem following_new : Following [] (.new idleTimeoutSeconds start) :=
  ⟨List.drop_nil.symm, rfl, le_refl _, fun _ => List.take_nil.symm,
    fun h => (Bool.false_ne_true h).elim, fun h => (Bool.false_ne_true h).elim⟩

namespace Following

theorem length_logTail (h : Following written s) :
    s.run.logTail.length = min written.length logTailSize := by
  rw [h.logTail, List.length_drop]
  omega

theorem appendLog (h : Following written s) (hs : s.run.status = .running) (line : String) :
    Following (written ++ [line]) (s.step idleTimeoutSeconds (.appendLog line)) := by
  have hlive : s.stream.returned ≠ true := fun hr => h.finished hr hs
  have htail : (s.run.appendLog line).logTail =
      (written ++ [line]).drop ((written ++ [line]).length - logTailSize) := by
    rw [ActionRun.appendLog_logTail, h.logTail, dequeAppend_drop]
  refine ⟨htail, h.length_yielded, ?_, ?_, fun hr => (hlive hr).elim, fun hr => (hlive hr).elim⟩
  · have hlen : (s.run.appendLog line).logTail.length =
        min (s.run.logTail.length + 1) logTailSize := by
      rw [ActionRun.appendLog_logTail, length_dequeAppend]
    have hle := h.cursor_le
    have hcap := s.run.logTail_le
    simp only [System.step]
    omega
  · intro hshort
    have hlen : written.length ≤ logTailSize := by
      rw [List.length_append] at hshort
      omega
    have hcursor : s.stream.cursor ≤ written.length := by
      have hle := h.cursor_le
      rw [h.length_logTail] at hle
      omega
    simp only [System.step]
    rw [h.yielded hlen, List.take_append_of_le_length hcursor]

theorem finish (h : Following written s) (exitCode : ℤ) :
    Following written (s.step idleTimeoutSeconds (.finish exitCode)) :=
  ⟨h.logTail, h.length_yielded, h.cursor_le, h.yielded,
    fun _ => ActionRun.finish_status_ne exitCode s.run, h.caughtUp⟩

/-- A poll with something new yields what is behind the cursor and nothing else. -/
theorem poll (h : Following written s) {now : ℚ}
    (hnow : s.stream.Idle s.run → now ≤ s.stream.idleDeadline) :
    Following written (s.step idleTimeoutSeconds (.poll now)) := by
  simp only [System.step, TailStream.poll]
  split
  · exact h
  · rename_i hlive
    split
    · rename_i hnew
      refine ⟨h.logTail, ?_, le_refl _, ?_, h.finished, fun hr => (hlive hr).elim⟩
      · dsimp only
        rw [List.length_append, List.length_drop, h.length_yielded]
        omega
      · intro hshort
        have hall : s.run.logTail = written := by
          rw [h.logTail, Nat.sub_eq_zero_of_le hshort, List.drop_zero]
        dsimp only
        rw [h.yielded hshort, hall, List.take_append_drop, List.take_length]
    · rename_i hold
      have hle : s.run.logTail.length = s.stream.cursor := by
        have := h.cursor_le
        omega
      split
      · rename_i hdone
        exact ⟨h.logTail, h.length_yielded, h.cursor_le, h.yielded, fun _ => hdone, fun _ => hle⟩
      · rename_i hrunning
        have hidle : s.stream.Idle s.run :=
          ⟨Bool.not_eq_true _ ▸ hlive, le_of_eq hle, not_not.mp hrunning⟩
        rw [if_neg (not_lt.mpr (hnow hidle))]
        exact h

end Following

/-- One orderly section keeps the invariant. -/
theorem following_step (h : Following written s) {e : Section} (he : s.Orderly e) :
    Following (written ++ appended [e]) (s.step idleTimeoutSeconds e) := by
  cases e with
  | appendLog line => exact h.appendLog he line
  | finish exitCode => exact (List.append_nil written).symm ▸ h.finish exitCode
  | poll now => exact (List.append_nil written).symm ▸ h.poll he

/-- Orderly sections keep it: `yielded` is as long as the cursor, the cursor within the log. -/
theorem following_after {sections : List Section} (h : Following written s)
    (hs : Steps System.Orderly (System.step idleTimeoutSeconds) s sections) :
    Following (written ++ appended sections)
      (after (System.step idleTimeoutSeconds) s sections) := by
  induction sections generalizing written s with
  | nil => exact (List.append_nil written).symm ▸ h
  | cons e sections ih =>
    have hone := ih (following_step h hs.1) hs.2
    rwa [List.append_assoc, ← appended_append] at hone

namespace Schedule

variable {sections : List Section}

theorem following (h : Schedule idleTimeoutSeconds start sections) {before : List Section}
    (hbefore : before <+: sections) :
    Following (appended before) (followed idleTimeoutSeconds start before) := by
  obtain ⟨rest, rfl⟩ := hbefore
  obtain ⟨lines, exitCode, hworker⟩ := h.worker
  have horderly := orderly_of_worker rfl hworker h.inTime
  have hall := following_after following_new (steps_append.mp horderly).1
  rwa [List.nil_append] at hall

end Schedule

/-- A poll of a finished run whose lines are out returns. -/
theorem returned_poll (hs : s.run.status ≠ .running)
    (hcursor : s.run.logTail.length ≤ s.stream.cursor) (now : ℚ) :
    (s.step idleTimeoutSeconds (.poll now)).stream.returned = true := by
  simp only [System.step, TailStream.poll, if_neg (not_lt.mpr hcursor), if_pos hs]
  split
  · assumption
  · rfl

theorem poll_of_returned (hs : s.stream.returned = true) (now : ℚ) :
    s.step idleTimeoutSeconds (.poll now) = s := by
  simp only [System.step, TailStream.poll, if_pos hs]

/-- After a poll the cursor is at the end of the log, or the stream has returned. -/
theorem caughtUp_poll (now : ℚ) :
    (s.step idleTimeoutSeconds (.poll now)).stream.returned = true ∨
      s.run.logTail.length ≤ (s.step idleTimeoutSeconds (.poll now)).stream.cursor := by
  simp only [System.step, TailStream.poll]
  split
  · left
    assumption
  · right
    split
    · exact le_refl _
    · have hle : s.run.logTail.length ≤ s.stream.cursor := by omega
      split_ifs <;> exact hle

/-- Two polls after the end of the run, the stream has returned. -/
theorem returned_after_finish (hs : s.run.status ≠ .running) (now later : ℚ) :
    (after (System.step idleTimeoutSeconds) s [.poll now, .poll later]).stream.returned =
      true := by
  rw [after_cons, after_cons, after_nil]
  have hcaught : (s.step idleTimeoutSeconds (.poll now)).stream.returned = true ∨
      s.run.logTail.length ≤ (s.step idleTimeoutSeconds (.poll now)).stream.cursor :=
    caughtUp_poll now
  obtain hreturned | hcursor := hcaught
  · rw [poll_of_returned hreturned]
    exact hreturned
  · exact returned_poll (s := s.step idleTimeoutSeconds (.poll now)) hs hcursor later

/-- A stream that has returned has yielded every line exactly when they fit in the log at once. -/
theorem Following.yielded_eq_iff (h : Following written s) (hreturned : s.stream.returned = true) :
    s.stream.yielded = written ↔ written.length ≤ logTailSize := by
  have hcursor := h.caughtUp hreturned
  rw [h.length_logTail] at hcursor
  constructor
  · intro hall
    have hlen := h.length_yielded
    rw [hall] at hlen
    omega
  · intro hshort
    rw [h.yielded hshort, ← hcursor, min_eq_left hshort, List.take_length]

/-- A stream of at most `_LOG_TAIL_SIZE` lines in total loses none of them. -/
theorem Schedule.losesNoLine {sections : List Section}
    (h : Schedule idleTimeoutSeconds start sections)
    (hshort : (appended sections).length ≤ logTailSize) :
    LosesNoLine idleTimeoutSeconds start sections := by
  intro before hbefore
  have hf := h.following hbefore
  have hle : (appended before).length ≤ logTailSize := by
    obtain ⟨rest, rfl⟩ := hbefore
    rw [appended_append, List.length_append] at hshort
    omega
  refine ⟨?_, fun hreturned => ⟨hf.finished hreturned, (hf.yielded_eq_iff hreturned).mpr hle⟩⟩
  rw [hf.yielded hle]
  exact List.take_prefix _ _

/-- The stream loses no line exactly when the run writes at most `_LOG_TAIL_SIZE` of them; in any
case it returns once the run has finished. -/
theorem losesNoLine_iff (sections : List Section)
    (h : Schedule idleTimeoutSeconds start sections) :
    let s := followed idleTimeoutSeconds start sections
    ((appended sections).length ≤ logTailSize → LosesNoLine idleTimeoutSeconds start sections) ∧
      (s.stream.returned = true →
        (LosesNoLine idleTimeoutSeconds start sections ↔
          (appended sections).length ≤ logTailSize)) ∧
      (s.run.status ≠ .running → ∀ now later,
        (after (System.step idleTimeoutSeconds) s [.poll now, .poll later]).stream.returned =
          true) := by
  refine ⟨h.losesNoLine, fun hreturned => ⟨?_, h.losesNoLine⟩, ?_⟩
  · intro hall
    have hyielded := ((hall sections (List.prefix_refl _)).2 hreturned).2
    exact ((h.following (List.prefix_refl _)).yielded_eq_iff hreturned).mp hyielded
  · intro hs now later
    exact returned_after_finish hs now later

theorem after_appends_stream (lines : List String) :
    (after (System.step idleTimeoutSeconds) s (lines.map .appendLog)).stream = s.stream := by
  induction lines generalizing s with
  | nil => rfl
  | cons line lines ih => exact ih

theorem steps_inTime_appends (lines : List String) :
    Steps System.InTime (System.step idleTimeoutSeconds) s (lines.map .appendLog) := by
  induction lines generalizing s with
  | nil => trivial
  | cons line lines ih => exact ⟨trivial, ih⟩

theorem paced_appends (lines : List String) (count : ℕ) (rest : List Section) :
    Paced count (lines.map .appendLog ++ rest) ↔ Paced (count + lines.length) rest := by
  induction lines generalizing count with
  | nil => exact Iff.rfl
  | cons line lines ih =>
    simp only [List.map_cons, List.cons_append, Paced, ih, List.length_cons]
    rw [show count + 1 + lines.length = count + (lines.length + 1) by omega]

theorem workerSections_appends (lines : List String) (rest : List Section) :
    workerSections (lines.map .appendLog ++ rest) =
      lines.map .appendLog ++ workerSections rest := by
  induction lines with
  | nil => rfl
  | cons line lines ih => exact congrArg (Section.appendLog line :: ·) ih

/-- A full log, a poll, one more line. -/
def longRun : List Section :=
  (List.replicate 2000 "line").map .appendLog ++
    [.poll 0, .appendLog "last line", .finish 0, .poll 0, .poll 0]

theorem longRun_schedule : Schedule 30 0 longRun := by
  refine ⟨⟨List.replicate 2000 "line" ++ ["last line"], 0, ?_⟩, ?_, ?_⟩
  · rw [longRun, workerSections_appends, List.map_append, List.append_assoc]
    exact List.prefix_refl _
  · rw [longRun, steps_append]
    refine ⟨steps_inTime_appends _, ?_, trivial, trivial, ?_, ?_, trivial⟩
    · intro _
      rw [after_appends_stream]
      norm_num [System.new, TailStream.new]
    · intro hidle
      exact (ActionRun.finish_status_ne _ _ hidle.2.2).elim
    · intro hidle
      exact (ActionRun.finish_status_ne _ _ hidle.2.2).elim
  · rw [longRun, paced_appends, List.length_replicate]
    refine ⟨?_, ?_, ?_, trivial⟩ <;> rw [logTailSize_eq] <;> omega

theorem longRun_returned : (followed 30 0 longRun).stream.returned = true := by
  have happ : longRun = ((List.replicate 2000 "line").map .appendLog ++
      [.poll 0, .appendLog "last line", .finish 0]) ++ [.poll 0, .poll 0] := by
    rw [longRun, List.append_assoc]
    rfl
  rw [followed, happ, after_append]
  refine returned_after_finish ?_ 0 0
  rw [after_append]
  exact ActionRun.finish_status_ne _ _

/-- The 2001st line of a run that is polled in time is never yielded. -/
theorem longRun_loses_line : Schedule 30 0 longRun ∧
    (followed 30 0 longRun).stream.returned = true ∧ ¬ LosesNoLine 30 0 longRun := by
  refine ⟨longRun_schedule, longRun_returned, fun hall => ?_⟩
  have hyielded := ((hall longRun (List.prefix_refl _)).2 longRun_returned).2
  have hf := longRun_schedule.following (List.prefix_refl longRun)
  have hlen := (hf.yielded_eq_iff longRun_returned).mp hyielded
  rw [longRun, appended_append, appended_appends, List.length_append, List.length_replicate,
    logTailSize_eq] at hlen
  simp [appended] at hlen

theorem losesNoLine_iff_longRun :
    LosesNoLine 30 0 longRun ↔ (appended longRun).length ≤ logTailSize :=
  (losesNoLine_iff longRun longRun_schedule).2.1 longRun_returned

end TraxMania.Dashboard
