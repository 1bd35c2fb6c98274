import TraxMania.Dashboard.LogStream
import TraxMania.Replay.Sidecars
import TraxMania.Lib.Interning
import TraxMania.Lib.PyText

/-
  `tools/dashboard_web/actions.py`: the catalogue of actions and the worker that runs them, under
  the route `POST /api/actions/<name>`. Any number of requests and threads interleave; a lock
  section is one step, and so is the start of a thread, which can fail.

  Whatever the interleaving, the sections of the runs come out one run after the other
  (`serial_after`): a run is accepted only when those before it have finished, and a finished run
  never changes again.
-/

namespace TraxMania.Dashboard

open TraxMania.Generation TraxMania.Generation.Llm TraxMania.Replay
open Lib.Transition Lib.Words Lib.PyText

/-! ## The catalogue -/

/-- What the worker finds on its machine. -/
structure Host where
  py : SidecarPython
  /-- `sys.executable`. -/
  executable : String
  /-- `str(REPO_ROOT / "scripts" / "run_pipeline.sh")`. -/
  script : String
  /-- `datetime.strftime`, of a time in UTC. -/
  strftime : String → ℤ → String
  /-- The child of the run with the number. -/
  popen : ℕ → List String → Child

/-- What one call of `start` reads. -/
structure Moment where
  /-- `uuid.uuid4().hex[:12]`. -/
  id : String
  now : ℤ
  /-- `script.exists()`. -/
  scriptExists : Bool

/-- Why a request is not started. -/
inductive Refused where
  /-- `ValueError`. -/
  | invalid (detail : String)
  /-- `BusyError`. -/
  | busy (detail : String)
  /-- An exception that the route does not catch. -/
  | uncaught

/-- `int(raw)` of a parameter; `TypeError` and `ValueError` are caught. -/
def intParam (host : Host) (key : String) (raw : Json) : Except Refused ℤ :=
  match raw.toInt host.py.toPython with
  | .ok n => .ok n
  | .error .typeError | .error .valueError | .error .jsonDecodeError =>
    .error (.invalid (key ++ " must be an integer, got " ++ host.py.repr raw))
  | .error .overflowError | .error .recursionError => .error .uncaught

/-- `params.get(key, default)`; only a dictionary has the method. -/
def getParam (params : Json) (key : String) (default : Json) : Except Refused Json :=
  match params with
  | .obj entries => .ok (field entries key default)
  | _ => .error .uncaught

/-- `_validate_random_count(params)`. -/
def validateRandomCount (host : Host) (params : Json) : Except Refused ℤ := do
  let raw ← getParam params "count" (.int 200)
  let n ← intParam host "count" raw
  if n < 1 ∨ 5000 < n then
    .error (.invalid ("count must be in [1, 5000], got " ++ toString n))
  else .ok n

def idChar (c : Char) : Bool := ('a' ≤ c && c ≤ 'z') || ('0' ≤ c && c ≤ '9')

/-- `re.fullmatch(r"[a-z0-9][a-z0-9\-]…", snap)`, from 2 to 64 characters. -/
def snapshotId : List Char → Bool
  | [] => false
  | c :: rest =>
    idChar c && 1 ≤ rest.length && rest.length ≤ 63 && rest.all fun c => idChar c || c == '-'

/-- `_validate_snapshot_optional(params)`. -/
def validateSnapshotOptional (host : Host) (params : Json) :
    Except Refused (Option String) := do
  match ← getParam params "snapshot" .null with
  | .null => .ok none
  | value =>
    let snap := strip isSpace (textOf host.py value).toList
    if snap.isEmpty then .ok none
    else if snapshotId snap then .ok (some (String.ofList snap))
    else .error (.invalid ("snapshot id " ++ host.py.repr (.str (String.ofList snap)) ++
      " must match [a-z0-9-]\x7b2,64\x7d"))

/-- The dictionary that `_validate_generate_map_params` returns. -/
structure GenerateMapParams where
  baseMapId : ℤ
  styleTagFilter : Option String
  difficulty : String
  randomSeed : ℤ

/-- The style filter of `_validate_generate_map_params`; an empty one is left out. -/
def validateStyle (host : Host) (params : Json) : Except Refused (Option String) := do
  match ← getParam params "style_tag_filter" .null with
  | .null => .ok none
  | .str "" => .ok none
  | value =>
    let style := String.ofList (strip isSpace (textOf host.py value).toList)
    if style = "" then .ok none
    else if style = "Tech" ∨ style = "FullSpeed" then .ok (some style)
    else .error (.invalid ("style_tag_filter " ++ host.py.repr (.str style) ++
      " must be 'Tech', 'FullSpeed', or null"))

/-- The base map of `_validate_generate_map_params`. -/
def validateBaseMap (host : Host) (params : Json) : Except Refused ℤ := do
  match ← getParam params "base_map_id" .null with
  | .null => .error (.invalid "base_map_id is required")
  | .str "" => .error (.invalid "base_map_id is required")
  | raw =>
    let n ← intParam host "base_map_id" raw
    if n < 1 then .error (.invalid ("base_map_id must be >= 1, got " ++ toString n)) else .ok n

/-- The difficulty of `_validate_generate_map_params`. -/
def validateDifficulty (host : Host) (params : Json) : Except Refused String := do
  let raw ← getParam params "difficulty" (.str "medium")
  let difficulty := textOf host.py raw
  if difficulty = "easy" ∨ difficulty = "medium" ∨ difficulty = "hard" then .ok difficulty
  else .error (.invalid ("difficulty " ++ host.py.repr (.str difficulty) ++
    " must be one of 'easy' / 'medium' / 'hard'"))

/-- `_validate_generate_map_params(params)`. -/
def validateGenerateMapParams (host : Host) (params : Json) :
    Except Refused GenerateMapParams := do
  let baseMapId ← validateBaseMap host params
  let style ← validateStyle host params
  let difficulty ← validateDifficulty host params
  let raw ← getParam params "random_seed" (.int 42)
  let seed ← intParam host "random_seed" raw
  return ⟨baseMapId, style, difficulty, seed⟩

/-- `_ingest_maps_random_args(p)`. -/
def ingestMapsRandomArgs (host : Host) (m : Moment) (count : ℤ) : List String :=
  ["ingest-maps", "--random", toString count, "--snapshot",
    "operator-" ++ host.strftime "%Y%m%d-%H%M" m.now]

/-- `_run_pipeline_args(p)`. -/
def runPipelineArgs (host : Host) (m : Moment) (snapshot : Option String) :
    Except Refused (List String) :=
  if m.scriptExists then
    .ok (["_shell", host.script] ++
      match snapshot with
      | some snap => ["--snapshot", snap]
      | none => [])
  else .error (.invalid "scripts/run_pipeline.sh missing — can't run full pipeline")

def modelReport : String := "reports/corridor-ranking-model-latest.json"

/-- `_train_ai_args(p)`. -/
def trainAiArgs : List String := ["train-corridor-ranking", "--output", modelReport, "--verbose"]

/-- `_score_args(p)`. -/
def scoreArgs : List String := ["score-corridors-learned", "--model-report", modelReport]

/-- `_generate_map_args(p)`. -/
def generateMapArgs (host : Host) (m : Moment) (p : GenerateMapParams) : List String :=
  ["generate-map", "--base-map-id", toString p.baseMapId, "--difficulty", p.difficulty,
    "--random-seed", toString p.randomSeed, "--output",
    "reports/generated-maps/base" ++ toString p.baseMapId ++ "-" ++
      host.strftime "%Y%m%dT%H%M%SZ" m.now ++ "-seed" ++ toString p.randomSeed ++ ".json"] ++
  match p.styleTagFilter with
  | some style => ["--style-tag-filter", style]
  | none => []

/-- A row of the catalogue: `argv` is `cli_args(validate_params(params))`. -/
structure ActionSpec where
  name : String
  title : String
  argv : Host → Moment → Json → Except Refused (List String)

/-- `ACTIONS`. -/
def actions : List ActionSpec :=
  [⟨"ingest-maps-random", "Add maps (random)", fun host m params => do
      let count ← validateRandomCount host params
      return ingestMapsRandomArgs host m count⟩,
    ⟨"run-pipeline", "Run pipeline", fun host m params => do
      let snapshot ← validateSnapshotOptional host params
      runPipelineArgs host m snapshot⟩,
    ⟨"train-ai", "Train AI", fun _ _ _ => .ok trainAiArgs⟩,
    ⟨"score-corridors", "Score corridors", fun _ _ _ => .ok scoreArgs⟩,
    ⟨"generate-map", "Generate map", fun host m params => do
      let p ← validateGenerateMapParams host params
      return generateMapArgs host m p⟩]

/-! ## The worker -/

/-- The thread of a run: not started yet, never started because `thread.start()` raised, or with
these sections to go. -/
inductive Thread where
  | unstarted
  | failed
  | running (todo : List Section)
deriving DecidableEq

/-- An `ActionRun`, with its thread. -/
structure Run where
  id : String
  actionName : String
  title : String
  startedAt : ℤ
  cliArgv : List String
  completedAt : Option ℤ
  progress : ActionRun
  thread : Thread

/-- `ActionWorker`, with every run it made; a run goes by its number. -/
structure ActionWorker where
  runs : List Run
  current : Option ℕ
  lastCompleted : Option ℕ

/-- `_default_runner(argv, run)` of a run. -/
def commandSections (host : Host) (i : ℕ) (argv : List String) : List Section :=
  defaultRunner host.executable (host.popen i) argv

namespace ActionWorker

/-- `ActionWorker()`. -/
def new : ActionWorker := ⟨[], none, none⟩

/-- `_current`, when its status is `running`. -/
def busyWith (w : ActionWorker) : Option Run :=
  match w.current with
  | some i => w.runs[i]?.filter fun r => decide (r.progress.status = .running)
  | none => none

/-- `start(action, params)` up to the end of its lock section. -/
def start (host : Host) (action : ActionSpec) (params : Json) (m : Moment) (w : ActionWorker) :
    Except Refused ℕ × ActionWorker :=
  match action.argv host m params with
  | .error e => (.error e, w)
  | .ok argv =>
    match w.busyWith with
    | some r => (.error (.busy ("action " ++ host.py.repr (.str r.actionName) ++
        " is running; wait for it to finish")), w)
    | none =>
      (.ok w.runs.length,
        { w with
          runs := w.runs ++ [⟨m.id, action.name, action.title, m.now, argv, none, .new,
            .unstarted⟩]
          current := some w.runs.length })

/-- The answers of `api_actions_start`. -/
inductive Response where
  /-- 404. -/
  | unknown (available : List String)
  /-- 400. -/
  | invalid (detail : String)
  /-- 409. -/
  | busy (detail : String)
  /-- 500. -/
  | uncaught
  /-- 202, with the number of the run. -/
  | started (i : ℕ)

/-- `get_json(silent=True) or {}`. -/
def paramsOf (body : Json) : Json := if truthy body then body else .obj []

/-- `api_actions_start(name)`. -/
def post (host : Host) (name : String) (body : Json) (m : Moment) (w : ActionWorker) :
    Response × ActionWorker :=
  match actions.find? fun spec => decide (spec.name = name) with
  | none => (.unknown ["generate-map", "ingest-maps-random", "run-pipeline", "score-corridors",
      "train-ai"], w)
  | some spec => answer (w.start host spec (paramsOf body) m)
where
  answer : Except Refused ℕ × ActionWorker → Response × ActionWorker
    | (.error (.invalid detail), w) => (.invalid detail, w)
    | (.error (.busy detail), w) => (.busy detail, w)
    | (.error .uncaught, w) => (.uncaught, w)
    | (.ok i, w) => (.started i, w)

/-- A request, the start of a thread, or the next lock section of one. -/
inductive Event where
  | post (name : String) (body : Json) (m : Moment)
  | spawn (i : ℕ) (started : Bool)
  | advance (i : ℕ) (now : ℤ)

/-- A lock section of the thread of run `i`. -/
def work (i : ℕ) (r : Run) (now : ℤ) (w : ActionWorker) : Section → ActionWorker
  | .appendLog line =>
    { w with runs := w.runs.set i { r with progress := r.progress.appendLog line } }
  | .finish exitCode =>
    ⟨w.runs.set i { r with progress := r.progress.finish exitCode, completedAt := some now },
      none, some i⟩
  | .poll _ => w

/-- `thread.start()` of run `i`. -/
def spawn (host : Host) (i : ℕ) (started : Bool) (r : Run) : Run :=
  { r with thread := if started then .running (commandSections host i r.cliArgv) else .failed }

def step (host : Host) (w : ActionWorker) : Event → ActionWorker
  | .post name body m => (w.post host name body m).2
  | .spawn i started =>
    match w.runs[i]? with
    | none => w
    | some r =>
      if r.thread = .unstarted then { w with runs := w.runs.set i (spawn host i started r) }
      else w
  | .advance i now =>
    match w.runs[i]? with
    | none => w
    | some r =>
      match r.thread with
      | .running (s :: todo) => w.work i { r with thread := .running todo } now s
      | _ => w

/-- The section that an event carries out. -/
def carriedOut (w : ActionWorker) : Event → List (ℕ × Section)
  | .advance i _ =>
    match w.runs[i]? with
    | none => []
    | some r =>
      match r.thread with
      | .running (s :: _) => [(i, s)]
      | _ => []
  | _ => []

/-- The sections carried out over the events, with the numbers of their runs. -/
def trace (host : Host) : ActionWorker → List Event → List (ℕ × Section)
  | _, [] => []
  | w, e :: events => w.carriedOut e ++ trace host (w.step host e) events

end ActionWorker


/-! ## One run after the other -/

namespace ActionRun

/-- A section of the thread, on its own run. -/
def work (run : ActionRun) : Section → ActionRun
  | .appendLog line => run.appendLog line
  | .finish exitCode => run.finish exitCode
  | .poll _ => run

theorem after_appends {run : ActionRun} {written : List String}
    (h : run.logTail = written.drop (written.length - logTailSize)) (lines : List String) :
    (after work run (lines.map .appendLog)).status = run.status ∧
      (after work run (lines.map .appendLog)).logTail =
        (written ++ lines).drop ((written ++ lines).length - logTailSize) := by
  induction lines generalizing run written with
  | nil =>
    rw [List.append_nil]
    exact ⟨rfl, h⟩
  | cons line lines ih =>
    have hone : (run.appendLog line).logTail =
        (written ++ [line]).drop ((written ++ [line]).length - logTailSize) := by
      rw [appendLog_logTail, h, dequeAppend_drop]
    have hrest := ih hone
    rw [List.append_assoc, List.singleton_append] at hrest
    exact hrest

theorem after_appends_new (lines : List String) :
    (after work new (lines.map .appendLog)).status = .running ∧
      (after work new (lines.map .appendLog)).logTail =
        lines.drop (lines.length - logTailSize) :=
  @after_appends new [] List.drop_nil.symm lines

end ActionRun

theorem commandSections_eq (host : Host) (i : ℕ) (argv : List String) :
    ∃ (lines : List String) (exitCode : ℤ),
      commandSections host i argv = lines.map .appendLog ++ [.finish exitCode] :=
  defaultRunner_eq host.executable (host.popen i) argv

/-- The next section of a thread writes a line, and is not the last one; or it is the last one and
finishes. -/
theorem next_section {host : Host} {i : ℕ} {argv : List String} {executed todo : List Section}
    {s : Section} (h : executed ++ s :: todo = commandSections host i argv) :
    ∃ lines : List String, executed = lines.map .appendLog ∧
      ((∃ line, s = .appendLog line ∧ todo ≠ []) ∨
        ∃ exitCode, s = .finish exitCode ∧ todo = []) := by
  obtain ⟨lines, exitCode, heq⟩ := commandSections_eq host i argv
  rw [heq] at h
  obtain htodo | ⟨todo', last, rfl⟩ := List.eq_nil_or_concat todo
  · subst htodo
    obtain ⟨rfl, hs⟩ := List.append_inj' h rfl
    exact ⟨lines, rfl, Or.inr ⟨exitCode, (List.cons.inj hs).1, rfl⟩⟩
  · rw [List.concat_eq_append, ← List.cons_append, ← List.append_assoc] at h
    obtain ⟨hmap, -⟩ := List.append_inj' h rfl
    obtain ⟨lines₁, lines₂, -, rfl, hrest⟩ := List.map_eq_append_iff.mp hmap.symm
    obtain ⟨line, -, -, hline, -⟩ := List.map_eq_cons_iff.mp hrest
    exact ⟨lines₁, rfl, Or.inl ⟨line, hline.symm, by simp⟩⟩

/-- The thread of run `i` is through. -/
structure Done (host : Host) (i : ℕ) (r : Run) : Prop where
  thread : r.thread = .running []
  progress : r.progress = after ActionRun.work .new (commandSections host i r.cliArgv)

/-- The sections `executed` of run `i` are behind it, and it is not through. -/
structure UnderWay (host : Host) (i : ℕ) (r : Run) (executed : List Section) : Prop where
  progress : r.progress = after ActionRun.work .new executed
  thread : executed = [] ∧ (r.thread = .unstarted ∨ r.thread = .failed) ∨
    ∃ s todo, r.thread = .running (s :: todo) ∧
      executed ++ s :: todo = commandSections host i r.cliArgv

variable {host : Host} {i : ℕ} {r : Run} {executed : List Section}

theorem UnderWay.status (h : UnderWay host i r executed) : r.progress.status = .running := by
  obtain ⟨rfl, -⟩ | ⟨s, todo, -, heq⟩ := h.thread
  · rw [h.progress]
    rfl
  · obtain ⟨lines, rfl, -⟩ := next_section heq
    rw [h.progress]
    exact (ActionRun.after_appends_new lines).1

/-- What a run that is through shows: its exit code and the end of its log. -/
structure Reported (host : Host) (i : ℕ) (r : Run) : Prop where
  report : ∃ (lines : List String) (exitCode : ℤ),
    commandSections host i r.cliArgv = lines.map .appendLog ++ [.finish exitCode] ∧
      r.progress.logTail = lines.drop (lines.length - logTailSize) ∧
      r.progress.exitCode = some exitCode ∧
      r.progress.status = if exitCode = 0 then .success else .failed

theorem Done.reported (h : Done host i r) : Reported host i r := by
  obtain ⟨lines, exitCode, heq⟩ := commandSections_eq host i r.cliArgv
  refine ⟨lines, exitCode, heq, ?_⟩
  rw [h.progress, heq, after_append]
  exact ⟨(ActionRun.after_appends_new lines).2, rfl, rfl⟩

theorem Done.status_ne (h : Done host i r) : r.progress.status ≠ .running := by
  obtain ⟨lines, exitCode, -, -, -, hstatus⟩ := h.reported.report
  rw [hstatus]
  split <;> decide

/-- The number of the last of `n` runs. -/
def lastOf : ℕ → Option ℕ
  | 0 => none
  | n + 1 => some n

/-- The sections of the runs from number `n` on, one run after the other. -/
def inOrderFrom (host : Host) : ℕ → List Run → List (ℕ × Section)
  | _, [] => []
  | n, r :: runs =>
    (commandSections host n r.cliArgv).map (n, ·) ++ inOrderFrom host (n + 1) runs

def inOrder (host : Host) (runs : List Run) : List (ℕ × Section) := inOrderFrom host 0 runs

theorem inOrderFrom_append (host : Host) (runs more : List Run) (n : ℕ) :
    inOrderFrom host n (runs ++ more) =
      inOrderFrom host n runs ++ inOrderFrom host (n + runs.length) more := by
  induction runs generalizing n with
  | nil => rfl
  | cons r runs ih =>
    rw [List.cons_append, inOrderFrom, inOrderFrom, ih, List.append_assoc, List.length_cons,
      Nat.add_right_comm, Nat.add_assoc]

theorem inOrder_concat (host : Host) (runs : List Run) (r : Run) :
    inOrder host (runs ++ [r]) =
      inOrder host runs ++ (commandSections host runs.length r.cliArgv).map (runs.length, ·) := by
  rw [inOrder, inOrderFrom_append, Nat.zero_add, inOrderFrom, inOrderFrom, List.append_nil, inOrder]

/-- The worker after the sections `trace`: all runs are through, or all but the last one. -/
inductive Serial (host : Host) : ActionWorker → List (ℕ × Section) → Prop where
  | idle {done : List Run} (hdone : ∀ i r, done[i]? = some r → Done host i r) :
    Serial host ⟨done, none, lastOf done.length⟩ (inOrder host done)
  | busy {done : List Run} {r : Run} {executed : List Section}
    (hdone : ∀ i r, done[i]? = some r → Done host i r)
    (hr : UnderWay host done.length r executed) :
    Serial host ⟨done ++ [r], some done.length, lastOf done.length⟩
      (inOrder host done ++ executed.map (done.length, ·))

open ActionWorker

variable {w : ActionWorker} {name : String} {body : Json} {m : Moment}

/-- A request changes nothing, or finds the worker free and appends a run. -/
theorem post_cases (host : Host) (name : String) (body : Json) (m : Moment) (w : ActionWorker) :
    (w.post host name body m).2 = w ∨
      ∃ spec ∈ actions, ∃ argv, spec.name = name ∧ spec.argv host m (paramsOf body) = .ok argv ∧
        w.busyWith = none ∧ (w.post host name body m).2 =
          { w with
            runs := w.runs ++ [⟨m.id, spec.name, spec.title, m.now, argv, none, .new, .unstarted⟩]
            current := some w.runs.length } := by
  unfold post
  split
  · exact Or.inl rfl
  · rename_i spec hspec
    have hname : spec.name = name := by
      simpa using List.find?_some hspec
    unfold start
    split
    · rename_i e _
      left
      cases e <;> rfl
    · rename_i argv hargv
      split
      · exact Or.inl rfl
      · rename_i hfree
        exact Or.inr ⟨spec, List.mem_of_find?_eq_some hspec, argv, hname, hargv, hfree, rfl⟩

theorem set_concat_length {α : Type*} (xs : List α) (x y : α) :
    (xs ++ [x]).set xs.length y = xs ++ [y] := by
  rw [List.set_append_right _ _ (le_refl _), Nat.sub_self]
  rfl

theorem step_spawn (w : ActionWorker) (h : ∀ r, w.runs[i]? = some r → r.thread ≠ .unstarted)
    (ok : Bool) : w.step host (.spawn i ok) = w := by
  cases hcell : w.runs[i]? with
  | none => simp only [step, hcell]
  | some r => simp only [step, hcell, if_neg (h r hcell)]

theorem step_advance (w : ActionWorker)
    (h : ∀ r, w.runs[i]? = some r → ∀ s todo, r.thread ≠ .running (s :: todo)) (now : ℤ) :
    w.step host (.advance i now) = w ∧ w.carriedOut (.advance i now) = [] := by
  cases hcell : w.runs[i]? with
  | none => simp only [step, carriedOut, hcell, and_self]
  | some r =>
    have hthread := h r hcell
    obtain ⟨id, name, title, started, argv, completed, progress, thread⟩ := r
    obtain _ | _ | ⟨_ | ⟨s, todo⟩⟩ := thread
    · simp only [step, carriedOut, hcell, and_self]
    · simp only [step, carriedOut, hcell, and_self]
    · simp only [step, carriedOut, hcell, and_self]
    · exact (hthread s todo rfl).elim

theorem Done.not_unstarted (h : Done host i r) : r.thread ≠ .unstarted := by
  rw [h.thread]
  exact fun h => nomatch h

theorem Done.not_running (h : Done host i r) (s : Section) (todo : List Section) :
    r.thread ≠ .running (s :: todo) := by
  rw [h.thread]
  exact fun h => nomatch h

theorem done_of_ne {done : List Run} (hdone : ∀ i r, done[i]? = some r → Done host i r)
    {last : Run} (hi : i ≠ done.length) :
    ∀ r, (done ++ [last])[i]? = some r → Done host i r := by
  intro r hr
  obtain hr | ⟨heq, -⟩ := Lib.getElem?_concat_eq_some.mp hr
  · exact hdone i r hr
  · exact (hi heq).elim

@[simp] theorem carriedOut_post : w.carriedOut (.post name body m) = [] := rfl

@[simp] theorem carriedOut_spawn (ok : Bool) : w.carriedOut (.spawn i ok) = [] := rfl

/-- `thread.start()` of the run that is under way. -/
theorem UnderWay.spawn (h : UnderWay host i r executed) (ok : Bool)
    (hthread : r.thread = .unstarted) : UnderWay host i (spawn host i ok r) executed := by
  obtain ⟨rfl, -⟩ | ⟨s, todo, hrunning, -⟩ := h.thread
  · refine ⟨h.progress, ?_⟩
    cases ok with
    | false => exact Or.inl ⟨rfl, Or.inr rfl⟩
    | true =>
      obtain ⟨lines, exitCode, heq⟩ := commandSections_eq host i r.cliArgv
      obtain ⟨s, todo, hcons⟩ : ∃ s todo, commandSections host i r.cliArgv = s :: todo :=
        List.exists_cons_of_ne_nil (heq ▸ by simp)
      exact Or.inr ⟨s, todo, congrArg Thread.running hcons, hcons.symm⟩
  · rw [hthread] at hrunning
    cases hrunning

/-- A line of the run that is under way. -/
theorem UnderWay.appendLog {todo : List Section} {line : String}
    (h : UnderWay host i r executed)
    (heq : executed ++ .appendLog line :: todo = commandSections host i r.cliArgv)
    (htodo : todo ≠ []) :
    UnderWay host i { r with thread := .running todo, progress := r.progress.appendLog line }
      (executed ++ [.appendLog line]) := by
  refine ⟨?_, Or.inr ?_⟩
  · rw [after_append, ← h.progress]
    rfl
  · obtain ⟨s, rest, rfl⟩ := List.exists_cons_of_ne_nil htodo
    refine ⟨s, rest, rfl, ?_⟩
    rw [List.append_assoc]
    exact heq

/-- The last section of the run that is under way. -/
theorem UnderWay.finish {exitCode : ℤ} (h : UnderWay host i r executed)
    (heq : executed ++ [.finish exitCode] = commandSections host i r.cliArgv) (now : ℤ) :
    Done host i { r with
      thread := .running [], progress := r.progress.finish exitCode, completedAt := some now } := by
  refine ⟨rfl, ?_⟩
  rw [← heq, after_append, ← h.progress]
  rfl

theorem done_concat {done : List Run} (hdone : ∀ i r, done[i]? = some r → Done host i r)
    (hr : Done host done.length r) : ∀ i r', (done ++ [r])[i]? = some r' → Done host i r' := by
  intro i r' hget
  obtain hget | ⟨rfl, rfl⟩ := Lib.getElem?_concat_eq_some.mp hget
  · exact hdone i r' hget
  · exact hr

variable {trace : List (ℕ × Section)}

/-- Every event leaves the runs one after the other. -/
theorem Serial.step (h : Serial host w trace) (e : Event) :
    Serial host (w.step host e) (trace ++ w.carriedOut e) := by
  cases e with
  | post name body m =>
    rw [carriedOut_post, List.append_nil]
    obtain hsame | ⟨spec, -, argv, -, -, hfree, hpost⟩ := post_cases host name body m w
    · rw [ActionWorker.step, hsame]
      exact h
    · rw [ActionWorker.step, hpost]
      cases h with
      | @idle done hdone =>
        have hrun : UnderWay host done.length ⟨m.id, spec.name, spec.title, m.now, argv, none, .new,
            .unstarted⟩ [] := ⟨rfl, Or.inl ⟨rfl, Or.inl rfl⟩⟩
        have hnew := Serial.busy hdone hrun
        rw [List.map_nil, List.append_nil] at hnew
        exact hnew
      | busy hdone hr =>
        simp [busyWith, hr.status] at hfree
  | spawn i ok =>
    rw [carriedOut_spawn, List.append_nil]
    cases h with
    | @idle done hdone =>
      rw [step_spawn _ fun r hr => (hdone i r hr).not_unstarted]
      exact .idle hdone
    | @busy done r executed hdone hr =>
      by_cases hi : i = done.length
      · subst hi
        simp only [ActionWorker.step, List.getElem?_concat_length]
        split
        · rename_i hthread
          rw [set_concat_length]
          exact .busy hdone (hr.spawn ok hthread)
        · exact .busy hdone hr
      · rw [step_spawn _ fun r hr => (done_of_ne hdone hi r hr).not_unstarted]
        exact .busy hdone hr
  | advance i now =>
    cases h with
    | @idle done hdone =>
      obtain ⟨hstep, hout⟩ := @step_advance host _ ⟨done, none, lastOf done.length⟩
        (fun r hr => (hdone i r hr).not_running) now
      rw [hstep, hout, List.append_nil]
      exact .idle hdone
    | @busy done r executed hdone hr =>
      by_cases hi : i = done.length
      · subst hi
        obtain ⟨-, hthread⟩ | ⟨s, todo, hthread, heq⟩ := hr.thread
        · have hstay : ∀ r', (done ++ [r])[done.length]? = some r' →
              ∀ s todo, r'.thread ≠ .running (s :: todo) := by
            intro r' hr' s todo hrunning
            rw [List.getElem?_concat_length] at hr'
            rw [← Option.some.inj hr'] at hrunning
            obtain hthread | hthread := hthread
            · rw [hthread] at hrunning
              cases hrunning
            · rw [hthread] at hrunning
              cases hrunning
          obtain ⟨hstep, hout⟩ := @step_advance host _
            ⟨done ++ [r], some done.length, lastOf done.length⟩ hstay now
          rw [hstep, hout, List.append_nil]
          exact .busy hdone hr
        · simp only [ActionWorker.step, carriedOut, List.getElem?_concat_length, hthread]
          obtain ⟨lines, -, ⟨line, rfl, htodo⟩ | ⟨exitCode, rfl, rfl⟩⟩ := next_section heq
          · have hnext := Serial.busy hdone (hr.appendLog heq htodo)
            rw [List.map_append, ← List.append_assoc] at hnext
            rw [work, set_concat_length]
            exact hnext
          · have hnext := Serial.idle (done_concat hdone (hr.finish heq now))
            rw [inOrder_concat, ← heq, List.map_append, ← List.append_assoc,
              List.length_append] at hnext
            rw [work, set_concat_length]
            exact hnext
      · obtain ⟨hstep, hout⟩ := @step_advance host _
          ⟨done ++ [r], some done.length, lastOf done.length⟩
          (fun r hr => (done_of_ne hdone hi r hr).not_running) now
        rw [hstep, hout, List.append_nil]
        exact .busy hdone hr

theorem serial_after (h : Serial host w trace) (events : List Event) :
    Serial host (after (step host) w events) (trace ++ ActionWorker.trace host w events) := by
  induction events generalizing w trace with
  | nil =>
    rw [ActionWorker.trace, List.append_nil]
    exact h
  | cons e events ih =>
    have hrest := ih (h.step e)
    rw [List.append_assoc] at hrest
    exact hrest

theorem serial_new (host : Host) : Serial host .new [] :=
  @Serial.idle host [] fun _ _ h => nomatch h

/-! ## What the dashboard shows -/

/-- A run that is through is never touched again. -/
theorem Done.keeps (h : Done host i r) (hr : w.runs[i]? = some r) (e : Event) :
    (w.step host e).runs[i]? = some r := by
  have hother : ∀ (j : ℕ) (r' x : Run), w.runs[j]? = some r' → r'.thread ≠ .running [] →
      (w.runs.set j x)[i]? = some r := by
    intro j r' x hj hthread
    have hne : j ≠ i := by
      intro heq
      rw [heq, hr] at hj
      exact hthread (Option.some.inj hj ▸ h.thread)
    rw [List.getElem?_set_ne hne]
    exact hr
  cases e with
  | post name body m =>
    obtain hsame | ⟨spec, -, argv, -, -, -, hpost⟩ := post_cases host name body m w
    · rw [ActionWorker.step, hsame]
      exact hr
    · rw [ActionWorker.step, hpost]
      exact Lib.getElem?_concat_eq_some.mpr (Or.inl hr)
  | spawn j ok =>
    simp only [ActionWorker.step]
    split
    · exact hr
    · rename_i r' hj
      split
      · rename_i hthread
        exact hother j r' _ hj (by rw [hthread]; exact fun h => nomatch h)
      · exact hr
  | advance j now =>
    simp only [ActionWorker.step]
    split
    · exact hr
    · rename_i r' hj
      split
      · rename_i s todo hthread
        have hne : r'.thread ≠ .running [] := by
          rw [hthread]
          exact fun h => nomatch h
        cases s with
        | appendLog line => exact hother j r' _ hj hne
        | finish exitCode => exact hother j r' _ hj hne
        | poll now => exact hr
      · exact hr

theorem keeps_after (h : Done host i r) (hr : w.runs[i]? = some r) (events : List Event) :
    (after (step host) w events).runs[i]? = some r := by
  induction events generalizing w with
  | nil => exact hr
  | cons e events ih => exact ih (h.keeps hr e)

/-- The runs of a worker and which of them is under way. -/
theorem serial_runs (h : Serial host w trace) :
    (∀ i r, w.runs[i]? = some r → Done host i r ∧ w.current ≠ some i ∨
      w.current = some i ∧ r.progress.status = .running ∧ i + 1 = w.runs.length) ∧
      (∀ i, w.current = some i → ∃ r, w.runs[i]? = some r) := by
  cases h with
  | idle hdone =>
    exact ⟨fun i r hr => Or.inl ⟨hdone i r hr, fun h => nomatch h⟩, fun _ h => nomatch h⟩
  | @busy done last executed hdone hlast =>
    refine ⟨fun i r hr => ?_, fun i hi => ?_⟩
    · obtain hr | ⟨rfl, rfl⟩ := Lib.getElem?_concat_eq_some.mp hr
      · refine Or.inl ⟨hdone i r hr, fun h => ?_⟩
        obtain ⟨hlt, -⟩ := List.getElem?_eq_some_iff.mp hr
        have := Option.some.inj h
        omega
      · exact Or.inr ⟨rfl, hlast.status, by simp⟩
    · rw [← Option.some.inj hi]
      exact ⟨last, List.getElem?_concat_length⟩

/-- A worker whose runs took their turns: `trace` is what their threads did. -/
structure TakesTurns (host : Host) (w : ActionWorker) (trace : List (ℕ × Section)) : Prop where
  /-- The threads did one run after the other. -/
  turns : trace <+: inOrder host w.runs
  /-- `current` is the one run with the status `running`, and the last that was accepted. -/
  current : ∀ i, w.current = some i ↔ ∃ r, w.runs[i]? = some r ∧ r.progress.status = .running
  last : ∀ i, w.current = some i → i + 1 = w.runs.length
  /-- Any other run has the exit code and the end of the log of its own command, for good. -/
  reported : ∀ (i : ℕ) (r : Run), w.runs[i]? = some r → r.progress.status ≠ .running →
    Reported host i r ∧ ∀ events, (after (step host) w events).runs[i]? = some r
  /-- `last_completed` is the last of these. -/
  lastCompleted : ∀ i, w.lastCompleted = some i ↔
    IsGreatest {j | ∃ r, w.runs[j]? = some r ∧ r.progress.status ≠ .running} i
  /-- A request that is in order is started when there is no run with the status `running`. -/
  started : ∀ name body m, (∃ i, (w.post host name body m).1 = .started i) ↔
    w.current = none ∧ ∃ spec ∈ actions, spec.name = name ∧
      ∃ argv, spec.argv host m (paramsOf body) = .ok argv
  /-- A run whose thread could not be started is never done with, and nothing runs after it. -/
  stuck : ∀ (i : ℕ) (r : Run), w.runs[i]? = some r → r.thread = .failed → ∀ e, w.step host e = w

theorem mem_lastOf {n i : ℕ} : lastOf n = some i ↔ IsGreatest {j | j < n} i := by
  cases n with
  | zero =>
    exact ⟨fun h => (Option.some_ne_none i h.symm).elim, fun h => (Nat.not_lt_zero i h.1).elim⟩
  | succ n =>
    constructor
    · intro h
      obtain rfl : n = i := Option.some.inj h
      exact ⟨Nat.lt_succ_self n, fun j hj => Nat.le_of_lt_succ hj⟩
    · rintro ⟨hlt, hmax⟩
      have hle : n ≤ i := hmax (Nat.lt_succ_self n)
      have hlt' : i < n + 1 := hlt
      exact congrArg some (by omega)

theorem Serial.through (h : Serial host w trace) : ∃ done : List Run,
    (∀ i r, done[i]? = some r → Done host i r) ∧ w.lastCompleted = lastOf done.length ∧
      ∀ i, (∃ r, w.runs[i]? = some r ∧ r.progress.status ≠ .running) ↔ i < done.length := by
  have hall : ∀ {done : List Run}, (∀ i r, done[i]? = some r → Done host i r) →
      ∀ i, (∃ r, done[i]? = some r ∧ r.progress.status ≠ .running) ↔ i < done.length := by
    intro done hdone i
    constructor
    · rintro ⟨r, hr, -⟩
      exact (List.getElem?_eq_some_iff.mp hr).1
    · intro hi
      exact ⟨done[i], List.getElem?_eq_getElem hi,
        (hdone i _ (List.getElem?_eq_getElem hi)).status_ne⟩
  cases h with
  | @idle done hdone => exact ⟨done, hdone, rfl, hall hdone⟩
  | @busy done last executed hdone hlast =>
    refine ⟨done, hdone, rfl, fun i => ?_⟩
    rw [← hall hdone i]
    constructor
    · rintro ⟨r, hr, hstatus⟩
      obtain hr | ⟨rfl, rfl⟩ := Lib.getElem?_concat_eq_some.mp hr
      · exact ⟨r, hr, hstatus⟩
      · exact (hstatus hlast.status).elim
    · rintro ⟨r, hr, hstatus⟩
      exact ⟨r, Lib.getElem?_concat_eq_some.mpr (Or.inl hr), hstatus⟩

/-- `_current` is never left with a run that is through. -/
theorem Serial.busyWith_eq_none (h : Serial host w trace) :
    w.busyWith = none ↔ w.current = none := by
  cases h with
  | idle hdone => exact iff_of_true rfl rfl
  | busy hdone hlast => simp [busyWith, hlast.status]

theorem find?_actions {spec : ActionSpec} (hspec : spec ∈ actions) :
    (actions.find? fun s => decide (s.name = spec.name)) = some spec := by
  simp only [actions, List.mem_cons, List.not_mem_nil, or_false] at hspec
  obtain rfl | rfl | rfl | rfl | rfl := hspec <;> rfl

theorem Serial.started_iff (h : Serial host w trace) (name : String) (body : Json) (m : Moment) :
    (∃ i, (w.post host name body m).1 = .started i) ↔
      w.current = none ∧ ∃ spec ∈ actions, spec.name = name ∧
        ∃ argv, spec.argv host m (paramsOf body) = .ok argv := by
  rw [← h.busyWith_eq_none]
  constructor
  · rintro ⟨i, hi⟩
    unfold post at hi
    split at hi
    · cases hi
    · rename_i spec hspec
      have hname : spec.name = name := by
        simpa using List.find?_some hspec
      unfold start at hi
      split at hi
      · rename_i e _
        cases e <;> cases hi
      · rename_i argv hargv
        split at hi
        · cases hi
        · rename_i hfree
          exact ⟨hfree, spec, List.mem_of_find?_eq_some hspec, hname, argv, hargv⟩
  · rintro ⟨hfree, spec, hspec, rfl, argv, hargv⟩
    refine ⟨w.runs.length, ?_⟩
    unfold post start
    rw [find?_actions hspec]
    simp only [hargv, hfree]
    rfl

theorem Serial.stuck (h : Serial host w trace) (hr : w.runs[i]? = some r)
    (hthread : r.thread = .failed) (e : Event) : w.step host e = w := by
  cases h with
  | idle hdone =>
    rw [(hdone i r hr).thread] at hthread
    cases hthread
  | @busy done last executed hdone hlast =>
    obtain hr | ⟨rfl, rfl⟩ := Lib.getElem?_concat_eq_some.mp hr
    · rw [(hdone i r hr).thread] at hthread
      cases hthread
    · have hother : ∀ (j : ℕ) (r' : Run), (done ++ [last])[j]? = some r' →
          r'.thread ≠ .unstarted ∧ ∀ s todo, r'.thread ≠ .running (s :: todo) := by
        intro j r' hj
        obtain hj | ⟨-, rfl⟩ := Lib.getElem?_concat_eq_some.mp hj
        · exact ⟨(hdone j r' hj).not_unstarted, (hdone j r' hj).not_running⟩
        · rw [hthread]
          exact ⟨(fun h => nomatch h), fun _ _ h => nomatch h⟩
      cases e with
      | post name body m =>
        obtain hsame | ⟨spec, -, argv, -, -, hfree, -⟩ := post_cases host name body m _
        · exact hsame
        · simp [busyWith, hlast.status] at hfree
      | spawn j ok => exact step_spawn _ (fun r' hj => (hother j r' hj).1) ok
      | advance j now => exact (step_advance _ (fun r' hj => (hother j r' hj).2) now).1

theorem Serial.takesTurns (h : Serial host w trace) : TakesTurns host w trace where
  turns := by
    cases h with
    | idle => exact List.prefix_refl _
    | @busy done last executed hdone hlast =>
      rw [inOrder_concat]
      refine (List.prefix_append_right_inj _).mpr (List.IsPrefix.map _ ?_)
      obtain ⟨rfl, -⟩ | ⟨s, todo, -, heq⟩ := hlast.thread
      · exact List.nil_prefix
      · exact ⟨_, heq⟩
  current := by
    intro i
    obtain ⟨hruns, hcurrent⟩ := serial_runs h
    constructor
    · intro hi
      obtain ⟨r, hr⟩ := hcurrent i hi
      obtain ⟨-, hne⟩ | ⟨-, hstatus, -⟩ := hruns i r hr
      · exact (hne hi).elim
      · exact ⟨r, hr, hstatus⟩
    · rintro ⟨r, hr, hstatus⟩
      obtain ⟨hdone, -⟩ | ⟨hi, -, -⟩ := hruns i r hr
      · exact (hdone.status_ne hstatus).elim
      · exact hi
  last := by
    intro i hi
    obtain ⟨hruns, hcurrent⟩ := serial_runs h
    obtain ⟨r, hr⟩ := hcurrent i hi
    obtain ⟨-, hne⟩ | ⟨-, -, hlast⟩ := hruns i r hr
    · exact (hne hi).elim
    · exact hlast
  reported := by
    intro i r hr hstatus
    obtain ⟨hdone, -⟩ | ⟨-, hrunning, -⟩ := (serial_runs h).1 i r hr
    · exact ⟨hdone.reported, keeps_after hdone hr⟩
    · exact (hstatus hrunning).elim
  lastCompleted := by
    intro i
    obtain ⟨done, -, hlast, hthrough⟩ := h.through
    rw [hlast, mem_lastOf]
    simp only [hthrough]
  started := h.started_iff
  stuck := fun _ _ hr hthread e => h.stuck hr hthread e

/-- Whatever requests come in and however the threads interleave with them, the runs take their
turns. -/
theorem takesTurns_after (host : Host) (events : List Event) :
    TakesTurns host (after (step host) .new events) (ActionWorker.trace host .new events) :=
  (serial_after (serial_new host) events).takesTurns

/-! ## What the machine is asked to run -/

/-- `[sys.executable, "-m", "src.cli", *argv]`. -/
def cliCommand (host : Host) (argv : List String) : List String :=
  [host.executable, "-m", "src.cli"] ++ argv

/-- The commands that the catalogue allows. -/
inductive Command (host : Host) : List String → Prop where
  | ingestMapsRandom {count : ℤ} (stamp : String) (hlow : 1 ≤ count) (hhigh : count ≤ 5000) :
    Command host (cliCommand host ["ingest-maps", "--random", toString count, "--snapshot",
      "operator-" ++ stamp])
  | runPipeline : Command host [host.script]
  | runPipelineOf {snap : List Char} (hsnap : snapshotId snap = true) :
    Command host [host.script, "--snapshot", String.ofList snap]
  | trainAi : Command host (cliCommand host trainAiArgs)
  | scoreCorridors : Command host (cliCommand host scoreArgs)
  | generateMap (m : Moment) {p : GenerateMapParams} (hbase : 1 ≤ p.baseMapId)
    (hdifficulty : p.difficulty = "easy" ∨ p.difficulty = "medium" ∨ p.difficulty = "hard")
    (hstyle : ∀ style, p.styleTagFilter = some style → style = "Tech" ∨ style = "FullSpeed") :
    Command host (cliCommand host (generateMapArgs host m p))

/-- The sections of a thread that reads the child of the command. -/
def childSections (cmd : List String) (child : Child) : List Section :=
  .appendLog ("$ " ++ " ".intercalate cmd) ::
    child.stdout.map (fun line => .appendLog (String.ofList (line.toList.rdropWhile (· = '\n'))))
    ++ match child.outcome with
      | .ok rc => [.finish rc]
      | .error (type, text) =>
        [.appendLog ("[worker error] " ++ type ++ ": " ++ text), .finish 1]

theorem commandSections_cli {head : String} {argv : List String} (hnoop : head ≠ "_noop")
    (hshell : head ≠ "_shell") : commandSections host i (head :: argv) =
      childSections (cliCommand host (head :: argv))
        (host.popen i (cliCommand host (head :: argv))) := by
  have hnoop' : (head :: argv).take 1 ≠ ["_noop"] := fun h => hnoop (List.cons.inj h).1
  have hshell' : (head :: argv).take 1 ≠ ["_shell"] := fun h => hshell (List.cons.inj h).1
  simp only [commandSections, defaultRunner, if_neg hnoop', if_neg hshell']
  rfl

theorem commandSections_shell (argv : List String) : commandSections host i ("_shell" :: argv) =
    childSections argv (host.popen i argv) := rfl

variable {params : Json}

theorem validateRandomCount_bounds {count : ℤ}
    (h : validateRandomCount host params = .ok count) : 1 ≤ count ∧ count ≤ 5000 := by
  unfold validateRandomCount at h
  obtain ⟨raw, -, h⟩ := Lib.Outcome.bind_eq_ok.mp h
  obtain ⟨n, -, h⟩ := Lib.Outcome.bind_eq_ok.mp h
  split at h
  · cases h
  · rename_i hbounds
    rw [← Except.ok.inj h]
    omega

theorem validateSnapshotOptional_some {snap : String}
    (h : validateSnapshotOptional host params = .ok (some snap)) :
    ∃ chars, snapshotId chars = true ∧ snap = String.ofList chars := by
  unfold validateSnapshotOptional at h
  obtain ⟨value, -, h⟩ := Lib.Outcome.bind_eq_ok.mp h
  split at h
  · cases h
  · dsimp only at h
    split at h
    · cases h
    · split at h
      · rename_i hid
        exact ⟨_, hid, (Option.some.inj (Except.ok.inj h)).symm⟩
      · cases h

theorem validateBaseMap_pos {baseMapId : ℤ} (h : validateBaseMap host params = .ok baseMapId) :
    1 ≤ baseMapId := by
  unfold validateBaseMap at h
  obtain ⟨raw, -, h⟩ := Lib.Outcome.bind_eq_ok.mp h
  split at h
  · cases h
  · cases h
  · obtain ⟨n, -, h⟩ := Lib.Outcome.bind_eq_ok.mp h
    split at h
    · cases h
    · rename_i hpos
      rw [← Except.ok.inj h]
      omega

theorem validateStyle_some {style : String} (h : validateStyle host params = .ok (some style)) :
    style = "Tech" ∨ style = "FullSpeed" := by
  unfold validateStyle at h
  obtain ⟨value, -, h⟩ := Lib.Outcome.bind_eq_ok.mp h
  split at h
  · cases h
  · cases h
  · dsimp only at h
    split at h
    · cases h
    · split at h
      · rename_i hstyle
        rw [← Option.some.inj (Except.ok.inj h)]
        exact hstyle
      · cases h

theorem validateDifficulty_ok {difficulty : String}
    (h : validateDifficulty host params = .ok difficulty) :
    difficulty = "easy" ∨ difficulty = "medium" ∨ difficulty = "hard" := by
  unfold validateDifficulty at h
  obtain ⟨raw, -, h⟩ := Lib.Outcome.bind_eq_ok.mp h
  dsimp only at h
  split at h
  · rename_i hknown
    rw [← Except.ok.inj h]
    exact hknown
  · cases h

/-- The arguments of an action make a thread run one of the commands. -/
theorem exists_command {spec : ActionSpec} (hspec : spec ∈ actions) {argv : List String}
    (h : spec.argv host m params = .ok argv) (i : ℕ) : ∃ cmd, Command host cmd ∧
      commandSections host i argv = childSections cmd (host.popen i cmd) := by
  simp only [actions, List.mem_cons, List.not_mem_nil, or_false] at hspec
  obtain rfl | rfl | rfl | rfl | rfl := hspec
  · obtain ⟨count, hcount, hargs⟩ := Lib.Outcome.bind_eq_ok.mp h
    rw [← Except.ok.inj hargs]
    obtain ⟨hlow, hhigh⟩ := validateRandomCount_bounds hcount
    exact ⟨_, .ingestMapsRandom _ hlow hhigh, commandSections_cli (by decide) (by decide)⟩
  · obtain ⟨snapshot, hsnapshot, hargs⟩ := Lib.Outcome.bind_eq_ok.mp h
    unfold runPipelineArgs at hargs
    split at hargs
    · rw [← Except.ok.inj hargs]
      cases snapshot with
      | none => exact ⟨_, .runPipeline, commandSections_shell _⟩
      | some snap =>
        obtain ⟨chars, hid, rfl⟩ := validateSnapshotOptional_some hsnapshot
        exact ⟨_, .runPipelineOf hid, commandSections_shell _⟩
    · cases hargs
  · rw [← Except.ok.inj h]
    exact ⟨_, .trainAi, commandSections_cli (by decide) (by decide)⟩
  · rw [← Except.ok.inj h]
    exact ⟨_, .scoreCorridors, commandSections_cli (by decide) (by decide)⟩
  · obtain ⟨p, hp, hargs⟩ := Lib.Outcome.bind_eq_ok.mp h
    rw [← Except.ok.inj hargs]
    unfold validateGenerateMapParams at hp
    obtain ⟨baseMapId, hbase, hp⟩ := Lib.Outcome.bind_eq_ok.mp hp
    obtain ⟨style, hstyle, hp⟩ := Lib.Outcome.bind_eq_ok.mp hp
    obtain ⟨difficulty, hdifficulty, hp⟩ := Lib.Outcome.bind_eq_ok.mp hp
    obtain ⟨raw, -, hp⟩ := Lib.Outcome.bind_eq_ok.mp hp
    obtain ⟨seed, -, hp⟩ := Lib.Outcome.bind_eq_ok.mp hp
    obtain rfl := Except.ok.inj hp
    refine ⟨_, .generateMap m (validateBaseMap_pos hbase) (validateDifficulty_ok hdifficulty) ?_,
      commandSections_cli (by decide) (by decide)⟩
    intro s hs
    have hsome : style = some s := hs
    rw [hsome] at hstyle
    exact validateStyle_some hstyle

/-- Every run has the arguments of an action. -/
def FromActions (host : Host) (w : ActionWorker) : Prop :=
  ∀ r ∈ w.runs, ∃ spec ∈ actions, ∃ m params, spec.argv host m params = .ok r.cliArgv

theorem fromActions_set (h : FromActions host w) {r r' : Run} (hr : w.runs[i]? = some r)
    (hargv : r'.cliArgv = r.cliArgv) :
    ∀ x ∈ w.runs.set i r',
      ∃ spec ∈ actions, ∃ m params, spec.argv host m params = .ok x.cliArgv := by
  intro x hx
  obtain hx | rfl := List.mem_or_eq_of_mem_set hx
  · exact h x hx
  · rw [hargv]
    exact h r (List.mem_of_getElem? hr)

theorem fromActions_step (h : FromActions host w) (e : Event) :
    FromActions host (w.step host e) := by
  cases e with
  | post name body m =>
    obtain hsame | ⟨spec, hspec, argv, -, hargv, -, hpost⟩ := post_cases host name body m w
    · rw [ActionWorker.step, hsame]
      exact h
    · rw [ActionWorker.step, hpost]
      intro r hr
      obtain hr | hr := List.mem_append.mp hr
      · exact h r hr
      · rw [List.mem_singleton.mp hr]
        exact ⟨spec, hspec, m, _, hargv⟩
  | spawn j ok =>
    simp only [ActionWorker.step]
    split
    · exact h
    · rename_i r hj
      split
      · exact fromActions_set h hj rfl
      · exact h
  | advance j now =>
    simp only [ActionWorker.step]
    split
    · exact h
    · rename_i r hj
      split
      · rename_i s todo _
        cases s with
        | appendLog line => exact fromActions_set h hj rfl
        | finish exitCode => exact fromActions_set h hj rfl
        | poll now => exact h
      · exact h

/-- Every run is one of the commands of the catalogue, with parameters that it allows. -/
def Catalogued (host : Host) (w : ActionWorker) : Prop :=
  ∀ i r, w.runs[i]? = some r → ∃ cmd, Command host cmd ∧
    commandSections host i r.cliArgv = childSections cmd (host.popen i cmd)

/-- Whatever is posted. -/
theorem runs_catalogued (host : Host) (events : List Event) :
    Catalogued host (after (step host) .new events) := by
  intro i r hr
  have hall : FromActions host (after (step host) .new events) :=
    List.foldlRecOn events (step host) (fun r hr => nomatch hr)
      fun _ hw e _ => fromActions_step hw e
  obtain ⟨spec, hspec, m, params, hargv⟩ := hall r (List.mem_of_getElem? hr)
  exact exists_command hspec hargv i

end TraxMania.Dashboard
