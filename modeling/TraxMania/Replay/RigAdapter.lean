import Mathlib.Data.List.GetD
import Mathlib.Tactic.FieldSimp
import TraxMania.Generation.RouteTypes
import TraxMania.Lib.Extreme
import TraxMania.Replay.TelemetryFile

/-
  `replay/openplanet_adapter.py`: what becomes of the output of the capture rig. The frames before
  the movement anchor go, the clock is re-based there, velocities are differences of positions and
  a checkpoint is the sample nearest to its split. Over exact rationals, with the infinities and
  NaN that a JSON text may carry.

  What the adapter makes of the frames is a function of the trimmed frames and of the splits alone
  (`adapted`); the statements about runs are read off that.
-/

namespace TraxMania.Replay

open TraxMania.Generation TraxMania.Generation.Llm TraxMania.Generation.Route
open Lib.Outcome Lib.Enumerate Lib.Extreme

/-! ## Reading the output -/

/-- The functions of the standard library that the adapter calls. -/
structure RigPython extends SidecarPython, LlmPython

/-- The exceptions of the adapter. -/
inductive RigRaised where
  /-- `RigOutputError`. -/
  | rigOutput (detail : String)
  | python (e : PyError)
  /-- An exception of the telemetry's own checks. -/
  | telemetry (e : Raised)

/-- `RIG_PROTOCOL`. -/
def rigProtocol : String := "ai_rig_v1"

/-- The keys of a frame. -/
def frameKeys : List String := ["t_ms", "x", "y", "z"]

/-- One turn of the checks of `_require_frames`. -/
def frameFrom (i : Nat) : Json → Except RigRaised Entries
  | .obj frame =>
    match firstMissing frameKeys frame with
    | some key => .error (.rigOutput ("frames[" ++ toString i ++ "] missing '" ++ key ++ "'"))
    | none => .ok frame
  | _ => .error (.rigOutput ("frames[" ++ toString i ++ "] is not an object"))

variable (py : RigPython)

/-- `_require_frames(payload)`. -/
def requireFrames (payload : Entries) : Except RigRaised (List Entries) :=
  match item payload "frames" with
  | .arr [] => .error (.rigOutput ("rig output has zero frames (exit_reason=" ++
      py.repr (item payload "exit_reason") ++ ", load_error=" ++
      py.repr (item payload "load_error") ++ ")"))
  | .arr frames => collect frameFrom 0 frames
  | _ => .error (.rigOutput "rig output has no 'frames' list")

/-- `int(payload.get("start_frame_index", -1))`. -/
def startFrameIndex (payload : Entries) : Except RigRaised Int :=
  ((field payload "start_frame_index" (.int (-1))).toInt py.toPython).mapError .python

/-- `0 <= start_frame_index < len(frames)`. -/
def anchored (start : Int) (frames : List Entries) : Bool :=
  decide (0 ≤ start) && decide (start < frames.length)

/-! ## The samples -/

/-- `x - y` of two floats. -/
def floatSub : JsonFloat → JsonFloat → JsonFloat
  | .finite x, .finite y => .finite (x - y)
  | .finite _, .infinite negative => .infinite !negative
  | .infinite negative, .finite _ => .infinite negative
  | .infinite negative, .infinite negative' =>
    if negative = negative' then .nan else .infinite negative
  | _, _ => .nan

/-- `x * scale` for a positive `scale`. -/
def floatScale (scale : ℚ) : JsonFloat → JsonFloat
  | .finite x => .finite (x * scale)
  | x => x

/-- One component of a velocity: the difference of two positions over their times. -/
def slope (dtMs : Int) (hi lo : JsonFloat) : JsonFloat :=
  if dtMs ≤ 0 then .finite 0 else floatScale (1000 / dtMs) (floatSub hi lo)

/-- The neighbours `lo` and `hi` of the sample `i` of `n`. -/
def lowNeighbour (i : Nat) : Nat := if 0 < i then i - 1 else i

def highNeighbour (n i : Nat) : Nat := if i + 1 < n then i + 1 else i

/-- `_velocities`, one component of them. -/
def velocities (timesMs : List Int) (xs : List JsonFloat) : List JsonFloat :=
  if timesMs.length = 1 then [.finite 0]
  else (List.range timesMs.length).map fun i =>
    let lo := lowNeighbour i
    let hi := highNeighbour timesMs.length i
    slope (timesMs.getD hi 0 - timesMs.getD lo 0) (xs.getD hi (.finite 0)) (xs.getD lo (.finite 0))

/-- The samples of the columns. -/
def sampleFrames (timesMs : List Int) (xs ys zs : List JsonFloat) : List SampleFrame :=
  let vxs := velocities timesMs xs
  let vys := velocities timesMs ys
  let vzs := velocities timesMs zs
  (List.range timesMs.length).map fun i =>
    ⟨timesMs.getD i 0, xs.getD i (.finite 0), ys.getD i (.finite 0), zs.getD i (.finite 0),
      vxs.getD i (.finite 0), vys.getD i (.finite 0), vzs.getD i (.finite 0)⟩

/-- `[float(f[key]) for f in frames]`. -/
def column (key : String) (frames : List Entries) : Except RigRaised (List JsonFloat) :=
  collect (fun _ frame => (toFloat py.toLlmPython (item frame key)).mapError .python) 0 frames

/-- `[int(f["t_ms"]) for f in frames]`. -/
def clock (frames : List Entries) : Except RigRaised (List Int) :=
  collect (fun _ frame => ((item frame "t_ms").toInt py.toPython).mapError .python) 0 frames

/-- The clock from its first reading on. -/
def rebase (timesMs : List Int) : List Int := timesMs.map fun t => t - timesMs.headD 0

/-- The samples of the frames that the trimming leaves. -/
def rigSamples (isAnchored : Bool) (frames : List Entries) :
    Except RigRaised (List SampleFrame) := do
  let times ← clock py frames
  let timesMs := if isAnchored then rebase times else times
  let xs ← column py "x" frames
  let ys ← column py "y" frames
  let zs ← column py "z" frames
  return sampleFrames timesMs xs ys zs

/-! ## The checkpoints and the rest -/

/-- `ghost`, when it is a mapping. -/
def ghostOf (payload : Entries) : Entries :=
  match item payload "ghost" with
  | .obj ghost => ghost
  | _ => []

/-- What `ghost.get("checkpoint_times_ms") or ()` runs over. -/
def splitTimes (ghost : Entries) : Except RigRaised (List Json) :=
  let splits := item ghost "checkpoint_times_ms"
  if truthy splits then splits.iterate.mapError .python else .ok []

/-- The sample nearest to a split, the first of several. -/
def nearestSample (timesMs : List Int) (split : Int) : Nat :=
  (argmin (timesMs.map fun t => |t - split|)).getD 0

/-- `_checkpoint_indices`. -/
def checkpointIndices (timesMs : List Int) (splits : List Json) (isAnchored : Bool) :
    Except RigRaised (List Int) :=
  if isAnchored then
    collect (fun _ split => do
      let ms ← (split.toInt py.toPython).mapError RigRaised.python
      return (nearestSample timesMs ms : Int)) 0 splits
  else .ok []

/-- `int(payload.get("sample_period_ms") or 0)`, when it is positive. -/
def samplePeriod (payload : Entries) : Except RigRaised Int := do
  let period := item payload "sample_period_ms"
  let periodMs ← if truthy period then (period.toInt py.toPython).mapError .python else .ok 0
  require (0 < periodMs)
    (.rigOutput ("rig output has unusable sample_period_ms=" ++ toString periodMs))
  return periodMs

/-- The finish time of a ghost that has finished. -/
def ghostFinish (payload ghost : Entries) : Except RigRaised (Option Int) :=
  let time := item ghost "time_ms"
  if truthy (item payload "finished") && truthy time then
    ((time.toInt py.toPython).mapError .python).map some
  else .ok none

/-- `extra`. -/
def rigExtra (payload ghost : Entries) (start : Int) (isAnchored : Bool) (splits : List Json) :
    Entries :=
  [("source", .str "openplanet_ai_replay_telemetry"),
    ("plugin_version", item payload "plugin_version"),
    ("exit_reason", item payload "exit_reason"),
    ("start_frame_index", .int start),
    ("trimmed_lead_frames", .int (if isAnchored then start else 0)),
    ("clock_rebased_to_race_start", .bool isAnchored),
    ("ghost_source", item ghost "source"),
    ("ghost_nickname", item ghost "nickname"),
    ("ghost_nb_respawns", item ghost "nb_respawns"),
    ("ghost_checkpoint_times_ms", .arr splits),
    ("velocity_is_differentiated", .bool true)]

/-- The frames from the anchor on. -/
def trimmed (start : Int) (frames : List Entries) : List Entries :=
  if anchored start frames then frames.drop start.toNat else frames

/-- `payload.get("protocol") == RIG_PROTOCOL`. -/
def isRigProtocol : Json → Bool
  | .str protocol => protocol = rigProtocol
  | _ => false

/-- `telemetry_from_rig_output(payload, source_replay_id=…)`. -/
def telemetryFromRigOutput (payload : Entries) (sourceReplayId : String) :
    Except RigRaised ReplayTelemetry := do
  require (isRigProtocol (item payload "protocol"))
    (.rigOutput ("unexpected protocol " ++ py.repr (item payload "protocol") ++ ", expected '" ++
      rigProtocol ++ "'"))
  require (truthy (item payload "load_success"))
    (.rigOutput ("rig job did not load: " ++
      textOf py.toSidecarPython (field payload "load_error" (.str "unknown"))))
  let frames ← requireFrames py payload
  let start ← startFrameIndex py payload
  let isAnchored := anchored start frames
  let samples ← rigSamples py isAnchored (trimmed start frames)
  let periodMs ← samplePeriod py payload
  let ghost := ghostOf payload
  let splits ← splitTimes ghost
  let checkpoints ← checkpointIndices py (samples.map SampleFrame.timeMs) splits isAnchored
  let finishTimeMs ← ghostFinish py payload ghost
  (ReplayTelemetry.checked
    ⟨telemetrySchemaVersion, sourceReplayId, max 1 (roundHalfEven (1000 / periodMs)), samples, none,
      finishTimeMs, checkpoints, [], rigExtra payload ghost start isAnchored splits⟩).mapError
    .telemetry

/-- One sample of `telemetry_to_dict`. -/
def sampleToDict (s : SampleFrame) : Json :=
  .obj [("time_ms", .int s.timeMs), ("x", .float s.x), ("y", .float s.y), ("z", .float s.z),
    ("vx", .float s.vx), ("vy", .float s.vy), ("vz", .float s.vz)]

/-- A text or `None`. -/
def textJson : Option String → Json
  | some s => .str s
  | none => .null

/-- An integer or `None`. -/
def intJson : Option Int → Json
  | some n => .int n
  | none => .null

/-- `telemetry_to_dict(telemetry)`. -/
def telemetryToDict (t : ReplayTelemetry) : Entries :=
  [("schema_version", .int t.schemaVersion), ("source_replay_id", .str t.sourceReplayId),
    ("sample_rate_hz", .int t.sampleRateHz), ("player_login", textJson t.playerLogin),
    ("finish_time_ms", intJson t.finishTimeMs),
    ("checkpoint_sample_indices", .arr (t.checkpointSampleIndices.map .int)),
    ("restart_sample_indices", .arr (t.restartSampleIndices.map .int)),
    ("extra", .obj t.extra), ("samples", .arr (t.samples.map sampleToDict))]

/-! ## What an accepted output becomes -/

theorem checked_eq_ok {t t' : ReplayTelemetry} (h : t.checked = .ok t') : t' = t := by
  unfold ReplayTelemetry.checked at h
  obtain ⟨_, -, h⟩ := bind_eq_ok.mp h
  obtain ⟨_, -, h⟩ := bind_eq_ok.mp h
  obtain ⟨_, -, h⟩ := bind_eq_ok.mp h
  obtain ⟨_, -, h⟩ := bind_eq_ok.mp h
  obtain ⟨_, -, h⟩ := bind_eq_ok.mp h
  exact (Except.ok.inj h).symm

theorem mapError_eq_ok {ε ε' α : Type} {f : ε → ε'} {x : Except ε α} {a : α} :
    x.mapError f = .ok a ↔ x = .ok a := by
  cases x <;> simp [Except.mapError]

variable {py}
variable {payload : Entries} {id : String} {t : ReplayTelemetry} {frames : List Entries}
variable {start : Int}

/-- The parts of the adapter's result. -/
theorem adapted (h : telemetryFromRigOutput py payload id = .ok t)
    (hframes : requireFrames py payload = .ok frames)
    (hstart : startFrameIndex py payload = .ok start) :
    rigSamples py (anchored start frames) (trimmed start frames) = .ok t.samples ∧
      (∃ splits, splitTimes (ghostOf payload) = .ok splits ∧
        checkpointIndices py (t.samples.map SampleFrame.timeMs) splits (anchored start frames) =
          .ok t.checkpointSampleIndices) ∧
      t.checked = .ok t := by
  unfold telemetryFromRigOutput at h
  obtain ⟨_, -, h⟩ := bind_eq_ok.mp h
  obtain ⟨_, -, h⟩ := bind_eq_ok.mp h
  rw [hframes, ok_bind, hstart, ok_bind] at h
  obtain ⟨samples, hsamples, h⟩ := bind_eq_ok.mp h
  obtain ⟨period, -, h⟩ := bind_eq_ok.mp h
  obtain ⟨splits, hsplits, h⟩ := bind_eq_ok.mp h
  obtain ⟨checkpoints, hcheckpoints, h⟩ := bind_eq_ok.mp h
  obtain ⟨finish, -, h⟩ := bind_eq_ok.mp h
  have hchecked := mapError_eq_ok.mp h
  obtain rfl := checked_eq_ok hchecked
  exact ⟨hsamples, ⟨splits, hsplits, hcheckpoints⟩, hchecked⟩

/-- The result on the wire is read back as it was. -/
theorem telemetryFromDict_toDict (py : SidecarPython) (h : t.checked = .ok t) :
    telemetryFromDict py (telemetryToDict t) = .ok t := by
  have hsamples : ∀ k (samples : List SampleFrame),
      collect sampleFrom k (samples.map sampleToDict) = .ok samples := by
    intro k samples
    induction samples generalizing k with
    | nil => rfl
    | cons s samples ih =>
      have hone : sampleFrom k (sampleToDict s) = .ok s := rfl
      rw [List.map_cons, collect_cons_ok hone, ih]
      rfl
  have hcheckpoints : indicesFrom "checkpoint_sample_indices" (telemetryToDict t) =
      .ok t.checkpointSampleIndices := collect_asInt_eq_ok.mpr rfl
  have hrestarts : indicesFrom "restart_sample_indices" (telemetryToDict t) =
      .ok t.restartSampleIndices := collect_asInt_eq_ok.mpr rfl
  have hfinish : optionalInt "finish_time_ms" (telemetryToDict t) = .ok t.finishTimeMs := by
    have hitem : item (telemetryToDict t) "finish_time_ms" = intJson t.finishTimeMs := rfl
    unfold optionalInt
    rw [hitem]
    cases t.finishTimeMs <;> rfl
  have hlogin : optionalText py (item (telemetryToDict t) "player_login") = t.playerLogin := by
    show optionalText py (textJson t.playerLogin) = _
    cases t.playerLogin <;> rfl
  have hall : samplesFrom (telemetryToDict t) = .ok t.samples := hsamples 0 t.samples
  have hkeys : requireKeys telemetryKeys
      (fun key => .telemetryFormat ("missing required top-level field '" ++ key ++ "'"))
      (telemetryToDict t) = .ok () := rfl
  unfold telemetryFromDict
  rw [hkeys, ok_bind, hall, ok_bind, hfinish, ok_bind, hcheckpoints, ok_bind, hrestarts, ok_bind,
    hlogin]
  exact h

/-! ## The samples -/

section Samples

variable {timesMs : List Int} {xs ys zs : List JsonFloat} {i : Nat}

theorem length_sampleFrames : (sampleFrames timesMs xs ys zs).length = timesMs.length := by
  simp [sampleFrames]

theorem sampleFrames_getElem? (hi : i < timesMs.length) :
    (sampleFrames timesMs xs ys zs)[i]? = some
      ⟨timesMs.getD i 0, xs.getD i (.finite 0), ys.getD i (.finite 0), zs.getD i (.finite 0),
        (velocities timesMs xs).getD i (.finite 0), (velocities timesMs ys).getD i (.finite 0),
        (velocities timesMs zs).getD i (.finite 0)⟩ := by
  simp only [sampleFrames, List.getElem?_map, List.getElem?_range hi, Option.map_some]

theorem map_timeMs_sampleFrames :
    (sampleFrames timesMs xs ys zs).map SampleFrame.timeMs = timesMs := by
  refine List.ext_getElem? fun i => ?_
  rw [List.getElem?_map]
  by_cases hi : i < timesMs.length
  · rw [sampleFrames_getElem? hi, Option.map_some, List.getD_eq_getElem _ _ hi,
      List.getElem?_eq_getElem hi]
  · rw [List.getElem?_eq_none (by rw [length_sampleFrames]; omega),
      List.getElem?_eq_none (by omega)]
    rfl

/-- A motion at constant velocity, as the columns have it. -/
def Uniform (timesMs : List Int) (xs : List JsonFloat) (x₀ v : ℚ) : Prop :=
  ∀ i < timesMs.length, xs.getD i (.finite 0) = .finite (x₀ + v * timesMs.getD i 0 / 1000)

/-- Differences over increasing times give the velocity back, at the ends too. -/
theorem velocities_uniform {x₀ v : ℚ} (htwo : 2 ≤ timesMs.length)
    (hincreasing : timesMs.Pairwise (· < ·)) (h : Uniform timesMs xs x₀ v)
    (hi : i < timesMs.length) : (velocities timesMs xs).getD i (.finite 0) = .finite v := by
  have hlow : lowNeighbour i ≤ i := by
    unfold lowNeighbour
    split <;> omega
  have hhigh : highNeighbour timesMs.length i < timesMs.length := by
    unfold highNeighbour
    split <;> omega
  have hlt : lowNeighbour i < highNeighbour timesMs.length i := by
    unfold lowNeighbour highNeighbour
    split <;> split <;> omega
  have hlow' : lowNeighbour i < timesMs.length := by omega
  have htime : timesMs.getD (lowNeighbour i) 0 <
      timesMs.getD (highNeighbour timesMs.length i) 0 := by
    rw [List.getD_eq_getElem _ _ hlow', List.getD_eq_getElem _ _ hhigh]
    exact List.pairwise_iff_getElem.mp hincreasing _ _ hlow' hhigh hlt
  have hget : (velocities timesMs xs).getD i (.finite 0) =
      slope (timesMs.getD (highNeighbour timesMs.length i) 0 - timesMs.getD (lowNeighbour i) 0)
        (xs.getD (highNeighbour timesMs.length i) (.finite 0))
        (xs.getD (lowNeighbour i) (.finite 0)) := by
    rw [velocities, if_neg (by omega), List.getD_eq_getElem?_getD, List.getElem?_map,
      List.getElem?_range hi]
    rfl
  rw [hget, h _ hhigh, h _ hlow', slope, if_neg (by omega), floatSub, floatScale]
  have hdt : (timesMs.getD (highNeighbour timesMs.length i) 0 : ℚ) -
      timesMs.getD (lowNeighbour i) 0 ≠ 0 := by
    have hcast : (timesMs.getD (lowNeighbour i) 0 : ℚ) <
        timesMs.getD (highNeighbour timesMs.length i) 0 := by exact_mod_cast htime
    exact ne_of_gt (sub_pos.mpr hcast)
  push_cast
  congr 1
  field_simp
  ring

end Samples

/-! ## The nearest sample -/

section Nearest

variable {times : List Int} {split split' : Int}

/-- `i` is the first index whose time is nearest to the split. -/
def NearestTo (times : List Int) (split : Int) (i : Nat) : Prop :=
  ∃ d, FirstLeast (times.map fun t => |t - split|) i d

theorem nearestTo_nearestSample (hne : times ≠ []) (split : Int) :
    NearestTo times split (nearestSample times split) := by
  obtain ⟨i, d, hargmin, hleast⟩ := firstLeast_argmin (times.map fun t => |t - split|)
    (fun h => hne (List.map_eq_nil_iff.mp h))
  have hi : nearestSample times split = i := by
    rw [nearestSample, hargmin]
    rfl
  exact ⟨d, hi ▸ hleast⟩

/-- The distances at two indices of which the first is nearest. -/
theorem NearestTo.dist_le {i j : Nat} {t t' : Int} (h : NearestTo times split i)
    (hi : times[i]? = some t) (hj : times[j]? = some t') :
    |t - split| ≤ |t' - split| ∧ (j < i → |t - split| < |t' - split|) := by
  obtain ⟨d, hd⟩ := h
  have hat := hd.at_index
  rw [List.getElem?_map, hi, Option.map_some, Option.some.injEq] at hat
  have hget : (times.map fun t => |t - split|)[j]? = some |t' - split| := by
    rw [List.getElem?_map, hj]
    rfl
  rw [hat]
  exact ⟨hd.least _ (List.mem_of_getElem? hget), fun hlt => hd.first j hlt _ hget⟩

theorem NearestTo.lt_length {i : Nat} (h : NearestTo times split i) : i < times.length := by
  obtain ⟨d, hd⟩ := h
  have hlt := (List.getElem?_eq_some_iff.mp hd.at_index).1
  rwa [List.length_map] at hlt

/-- A later split has no earlier sample, when the times do not go back. -/
theorem NearestTo.mono {i i' : Nat} (htimes : times.Pairwise (· ≤ ·)) (hsplit : split ≤ split')
    (h : NearestTo times split i) (h' : NearestTo times split' i') : i ≤ i' := by
  by_contra hlt
  have hi := h.lt_length
  have hi' := h'.lt_length
  have hle : times[i'] ≤ times[i] :=
    List.pairwise_iff_getElem.mp htimes _ _ hi' hi (by omega)
  -- the earlier index is farther from `split` and no farther from `split'`
  have hfar := (h.dist_le (List.getElem?_eq_getElem hi) (List.getElem?_eq_getElem hi')).2 (by omega)
  have hnear := (h'.dist_le (List.getElem?_eq_getElem hi') (List.getElem?_eq_getElem hi)).1
  rcases abs_cases (times[i] - split) with h1 | h1 <;>
    rcases abs_cases (times[i'] - split) with h2 | h2 <;>
    rcases abs_cases (times[i'] - split') with h3 | h3 <;>
    rcases abs_cases (times[i] - split') with h4 | h4 <;> omega

end Nearest

/-! ## Another clock -/

/-- The mapping with another value at a key. -/
def mapKey (key : String) (g : Json → Json) (entries : Entries) : Entries :=
  entries.map fun kv => (kv.1, if kv.1 = key then g kv.2 else kv.2)

theorem lookup_mapKey (key : String) (g : Json → Json) (entries : Entries) (other : String) :
    (mapKey key g entries).lookup other =
      (entries.lookup other).map fun v => if other = key then g v else v := by
  induction entries with
  | nil => rfl
  | cons kv entries ih =>
    rw [mapKey, List.map_cons, List.lookup_cons, List.lookup_cons]
    by_cases hkey : other = kv.1
    · rw [hkey, BEq.rfl]
      rfl
    · rw [beq_false_of_ne hkey]
      exact ih

theorem item_mapKey_ne {key other : String} (h : other ≠ key) (g : Json → Json)
    (entries : Entries) : item (mapKey key g entries) other = item entries other := by
  rw [item, lookup_mapKey]
  simp only [if_neg h, Option.map_id', item]

theorem item_mapKey_self {key : String} {g : Json → Json} (hg : g .null = .null)
    (entries : Entries) : item (mapKey key g entries) key = g (item entries key) := by
  rw [item, lookup_mapKey, item]
  cases entries.lookup key with
  | none => exact hg.symm
  | some v => simp

/-- A reading of the clock, `c` later. -/
def addMs (c : Int) : Json → Json
  | .int n => .int (n + c)
  | v => v

def shiftFrame (c : Int) : Json → Json
  | .obj frame => .obj (mapKey "t_ms" (addMs c) frame)
  | v => v

def shiftFrames (c : Int) : Json → Json
  | .arr frames => .arr (frames.map (shiftFrame c))
  | v => v

/-- The output with `c` added to every `t_ms`. -/
def shiftClock (c : Int) (payload : Entries) : Entries := mapKey "frames" (shiftFrames c) payload

/-- The reading of a frame whose `t_ms` is an integer. -/
def frameTime (frame : Entries) : Int :=
  match item frame "t_ms" with
  | .int n => n
  | _ => 0

/-- Every `t_ms` is an integer. -/
def IntegerClock (frames : List Entries) : Prop :=
  ∀ frame ∈ frames, item frame "t_ms" = .int (frameTime frame)

variable {c : Int}

theorem clock_eq (h : IntegerClock frames) : clock py frames = .ok (frames.map frameTime) := by
  have hfrom : ∀ k, collect (fun _ frame => ((item frame "t_ms").toInt py.toPython).mapError
      RigRaised.python) k frames = .ok (frames.map frameTime) := by
    induction frames with
    | nil => exact fun _ => rfl
    | cons frame frames ih =>
      intro k
      have hone : ((item frame "t_ms").toInt py.toPython).mapError RigRaised.python =
          .ok (frameTime frame) := by
        rw [h frame List.mem_cons_self]
        rfl
      rw [collect_cons_ok hone, ih (fun f hf => h f (List.mem_cons_of_mem _ hf))]
      rfl
  exact hfrom 0

theorem integerClock_shift (h : IntegerClock frames) :
    IntegerClock (frames.map (mapKey "t_ms" (addMs c))) ∧
      (frames.map (mapKey "t_ms" (addMs c))).map frameTime =
        (frames.map frameTime).map (· + c) := by
  have hitem : ∀ frame ∈ frames, item (mapKey "t_ms" (addMs c) frame) "t_ms" =
      .int (frameTime frame + c) := by
    intro frame hframe
    rw [item_mapKey_self rfl, h frame hframe]
    rfl
  have htime : ∀ frame ∈ frames, frameTime (mapKey "t_ms" (addMs c) frame) =
      frameTime frame + c := by
    intro frame hframe
    rw [frameTime, hitem frame hframe]
  constructor
  · intro frame hframe
    obtain ⟨frame', hframe', rfl⟩ := List.mem_map.mp hframe
    rw [hitem frame' hframe', htime frame' hframe']
  · rw [List.map_map, List.map_map]
    exact List.map_congr_left htime

theorem rebase_map_add (timesMs : List Int) : rebase (timesMs.map (· + c)) = rebase timesMs := by
  cases timesMs with
  | nil => rfl
  | cons t timesMs =>
    simp only [rebase, List.map_map, List.map_cons, List.headD_cons]
    refine congrArg₂ List.cons (by simp) (List.map_congr_left fun t' _ => ?_)
    simp only [Function.comp_apply]
    omega

theorem column_shift {key : String} (hkey : key ≠ "t_ms") (frames : List Entries) :
    column py key (frames.map (mapKey "t_ms" (addMs c))) = column py key frames := by
  have hfrom : ∀ k, collect (fun _ frame => (toFloat py.toLlmPython (item frame key)).mapError
      RigRaised.python) k (frames.map (mapKey "t_ms" (addMs c))) =
      collect (fun _ frame => (toFloat py.toLlmPython (item frame key)).mapError
        RigRaised.python) k frames := by
    induction frames with
    | nil => exact fun _ => rfl
    | cons frame frames ih =>
      intro k
      rw [List.map_cons, collect, collect, item_mapKey_ne hkey, ih]
  exact hfrom 0

theorem rigSamples_shift (h : IntegerClock frames) :
    rigSamples py true (frames.map (mapKey "t_ms" (addMs c))) = rigSamples py true frames := by
  obtain ⟨hclock, htimes⟩ := integerClock_shift (c := c) h
  unfold rigSamples
  rw [clock_eq hclock, clock_eq h, htimes, ok_bind, ok_bind, column_shift (by decide),
    column_shift (by decide), column_shift (by decide)]
  simp only [if_true, rebase_map_add]

theorem frameFrom_shift {i : Nat} {v : Json} {frame : Entries} (h : frameFrom i v = .ok frame) :
    frameFrom i (shiftFrame c v) = .ok (mapKey "t_ms" (addMs c) frame) := by
  cases v with
  | obj raw =>
    have hmissing : firstMissing frameKeys (mapKey "t_ms" (addMs c) raw) =
        firstMissing frameKeys raw := by
      unfold firstMissing
      simp only [lookup_mapKey, Option.isNone_map]
    simp only [frameFrom, shiftFrame] at h ⊢
    rw [hmissing]
    cases hkey : firstMissing frameKeys raw with
    | some key =>
      rw [hkey] at h
      cases h
    | none =>
      rw [hkey] at h
      rw [← Except.ok.inj h]
  | _ => cases h

theorem requireFrames_shift (h : requireFrames py payload = .ok frames) :
    requireFrames py (shiftClock c payload) = .ok (frames.map (mapKey "t_ms" (addMs c))) := by
  have hitem : item (shiftClock c payload) "frames" = shiftFrames c (item payload "frames") :=
    item_mapKey_self rfl payload
  unfold requireFrames at h ⊢
  rw [hitem]
  cases hv : item payload "frames" with
  | arr items =>
    rw [hv] at h
    have hfrom : ∀ k frames, collect frameFrom k items = .ok frames →
        collect frameFrom k (items.map (shiftFrame c)) =
          .ok (frames.map (mapKey "t_ms" (addMs c))) := by
      clear h hv
      induction items with
      | nil =>
        intro k frames h
        rw [collect_nil_eq_ok.mp h]
        rfl
      | cons v items ih =>
        intro k frames h
        obtain ⟨frame, rest, hframe, hrest, rfl⟩ := collect_cons_eq_ok.mp h
        rw [List.map_cons, collect_cons_ok (frameFrom_shift hframe), ih _ _ hrest]
        rfl
    cases items with
    | nil => cases h
    | cons v items => exact hfrom 0 frames h
  | _ =>
    rw [hv] at h
    cases h

theorem trimmed_map (f : Entries → Entries) (start : Int) (frames : List Entries) :
    anchored start (frames.map f) = anchored start frames ∧
      trimmed start (frames.map f) = (trimmed start frames).map f := by
  have hanchored : anchored start (frames.map f) = anchored start frames := by
    rw [anchored, List.length_map, anchored]
  refine ⟨hanchored, ?_⟩
  rw [trimmed, trimmed, hanchored]
  split
  · exact List.map_drop.symm
  · rfl

/-- A constant on the clock changes nothing of what becomes of an anchored run. -/
theorem telemetryFromRigOutput_shift (hframes : requireFrames py payload = .ok frames)
    (hclock : IntegerClock frames) (hstart : startFrameIndex py payload = .ok start)
    (hanchored : anchored start frames = true) :
    telemetryFromRigOutput py (shiftClock c payload) id = telemetryFromRigOutput py payload id := by
  have hitem : ∀ key, key ≠ "frames" → item (shiftClock c payload) key = item payload key :=
    fun key hkey => item_mapKey_ne hkey _ _
  have hfield : ∀ key v, key ≠ "frames" → field (shiftClock c payload) key v =
      field payload key v := by
    intro key v hkey
    rw [field, shiftClock, lookup_mapKey]
    simp only [if_neg hkey, Option.map_id', field]
  have hghost : ghostOf (shiftClock c payload) = ghostOf payload := by
    rw [ghostOf, hitem _ (by decide), ghostOf]
  have hperiod : samplePeriod py (shiftClock c payload) = samplePeriod py payload := by
    rw [samplePeriod, hitem _ (by decide), samplePeriod]
  have hfinish : ∀ ghost, ghostFinish py (shiftClock c payload) ghost =
      ghostFinish py payload ghost := by
    intro ghost
    rw [ghostFinish, hitem _ (by decide), ghostFinish]
  have hextra : ∀ ghost isAnchored splits, rigExtra (shiftClock c payload) ghost start isAnchored
      splits = rigExtra payload ghost start isAnchored splits := by
    intro ghost isAnchored splits
    rw [rigExtra, hitem _ (by decide), hitem _ (by decide), rigExtra]
  have hstart' : startFrameIndex py (shiftClock c payload) = .ok start := by
    rw [← hstart, startFrameIndex, hfield _ _ (by decide), startFrameIndex]
  obtain ⟨hanchored', htrimmed⟩ := trimmed_map (mapKey "t_ms" (addMs c)) start frames
  have hclock' : IntegerClock (trimmed start frames) := by
    intro frame hframe
    rw [trimmed, if_pos hanchored] at hframe
    exact hclock frame (List.mem_of_mem_drop hframe)
  unfold telemetryFromRigOutput
  simp only [requireFrames_shift hframes, hframes, hstart', hstart, ok_bind, hanchored', htrimmed,
    hanchored, rigSamples_shift hclock', hghost, hperiod, hfinish, hextra, hitem _ (show
    "protocol" ≠ "frames" by decide), hitem _ (show "load_success" ≠ "frames" by decide),
    hfield _ _ (show "load_error" ≠ "frames" by decide)]

/-! ## The run and only the run -/

/-- The sample of a frame in a run whose first reading is `origin`: its position is passed on. -/
def SampleOf (py : RigPython) (origin : Int) (frame : Entries) (s : SampleFrame) : Prop :=
  s.timeMs = frameTime frame - origin ∧ toFloat py.toLlmPython (item frame "x") = .ok s.x ∧
    toFloat py.toLlmPython (item frame "y") = .ok s.y ∧
    toFloat py.toLlmPython (item frame "z") = .ok s.z

theorem column_getD {key : String} {xs : List JsonFloat} (h : column py key frames = .ok xs)
    {i : Nat} {frame : Entries} (hi : frames[i]? = some frame) :
    toFloat py.toLlmPython (item frame key) = .ok (xs.getD i (.finite 0)) := by
  obtain ⟨x, hx, hread⟩ := (getElem?_of_collect h).2 i frame hi
  rw [List.getD_eq_getElem?_getD, hx]
  exact mapError_eq_ok.mp hread

/-- The columns of the samples of an anchored run. -/
theorem rigSamples_eq {samples : List SampleFrame} (hclock : IntegerClock frames)
    (h : rigSamples py true frames = .ok samples) :
    ∃ xs ys zs, column py "x" frames = .ok xs ∧ column py "y" frames = .ok ys ∧
      column py "z" frames = .ok zs ∧
      samples = sampleFrames (rebase (frames.map frameTime)) xs ys zs := by
  unfold rigSamples at h
  rw [clock_eq hclock, ok_bind] at h
  obtain ⟨xs, hxs, h⟩ := bind_eq_ok.mp h
  obtain ⟨ys, hys, h⟩ := bind_eq_ok.mp h
  obtain ⟨zs, hzs, h⟩ := bind_eq_ok.mp h
  exact ⟨xs, ys, zs, hxs, hys, hzs, (Except.ok.inj h).symm⟩

theorem headD_map_frameTime (first : Entries) (rest : List Entries) :
    rebase ((first :: rest).map frameTime) =
      (first :: rest).map fun frame => frameTime frame - frameTime first := by
  rw [rebase, List.map_map]
  rfl

/-- Each frame from the anchor on has its sample. -/
theorem sampleOf_rigSamples {first : Entries} {rest : List Entries} {samples : List SampleFrame}
    (hclock : IntegerClock (first :: rest)) (h : rigSamples py true (first :: rest) = .ok samples) :
    List.Forall₂ (SampleOf py (frameTime first)) (first :: rest) samples := by
  obtain ⟨xs, ys, zs, hxs, hys, hzs, rfl⟩ := rigSamples_eq hclock h
  have htimes := headD_map_frameTime first rest
  rw [List.forall₂_iff_get]
  refine ⟨?_, fun i hi hi' => ?_⟩
  · rw [length_sampleFrames, htimes, List.length_map]
  · have hi'' : i < (rebase ((first :: rest).map frameTime)).length := by
      rwa [length_sampleFrames] at hi'
    have hframe : (first :: rest)[i]? = some ((first :: rest).get ⟨i, hi⟩) :=
      List.getElem?_eq_getElem hi
    have hget : (sampleFrames (rebase ((first :: rest).map frameTime)) xs ys zs)[i]? = some _ :=
      sampleFrames_getElem? hi''
    rw [List.getElem?_eq_getElem hi', Option.some.injEq] at hget
    rw [show (sampleFrames _ xs ys zs).get ⟨i, hi'⟩ = _ from hget]
    refine ⟨?_, column_getD hxs hframe, column_getD hys hframe, column_getD hzs hframe⟩
    rw [htimes, List.getD_eq_getElem?_getD, List.getElem?_map, hframe]
    rfl

/-- The indices are those of the samples nearest to the splits. -/
theorem checkpointIndices_eq {timesMs : List Int} {splits : List Json} {indices : List Int}
    (h : checkpointIndices py timesMs splits true = .ok indices) :
    ∃ ms : List Int, List.Forall₂ (fun split m => split.toInt py.toPython = .ok m) splits ms ∧
      indices = ms.map fun m => (nearestSample timesMs m : Int) := by
  have hfrom : ∀ k indices, collect (fun _ split => do
      let ms ← (Json.toInt py.toPython split).mapError RigRaised.python
      return (nearestSample timesMs ms : Int)) k splits = .ok indices →
      ∃ ms : List Int, List.Forall₂ (fun split m => split.toInt py.toPython = .ok m) splits ms ∧
        indices = ms.map fun m => (nearestSample timesMs m : Int) := by
    clear h
    induction splits with
    | nil =>
      intro k indices h
      exact ⟨[], .nil, collect_nil_eq_ok.mp h⟩
    | cons split splits ih =>
      intro k indices h
      obtain ⟨index, rest, hindex, hrest, rfl⟩ := collect_cons_eq_ok.mp h
      obtain ⟨m, hm, hindex⟩ := bind_eq_ok.mp hindex
      obtain ⟨ms, hms, rfl⟩ := ih _ _ hrest
      rw [← Except.ok.inj hindex]
      exact ⟨m :: ms, .cons (mapError_eq_ok.mp hm) hms, rfl⟩
  rw [checkpointIndices, if_pos rfl] at h
  exact hfrom 0 indices h

/-- Nondecreasing times and splits have nondecreasing indices. -/
theorem pairwise_nearestSample {timesMs ms : List Int} (hne : timesMs ≠ [])
    (htimes : timesMs.Pairwise (· ≤ ·)) (hms : ms.Pairwise (· ≤ ·)) :
    (ms.map fun m => (nearestSample timesMs m : Int)).Pairwise (· ≤ ·) := by
  rw [List.pairwise_map]
  refine hms.imp fun hle => ?_
  exact_mod_cast (nearestTo_nearestSample hne _).mono htimes hle (nearestTo_nearestSample hne _)

/-- The samples that move at a constant velocity, `x₀` being where they are at time 0. -/
def ConstantVelocity (samples : List SampleFrame) (position : SampleFrame → JsonFloat)
    (x₀ v : ℚ) : Prop :=
  ∀ s ∈ samples, position s = .finite (x₀ + v * s.timeMs / 1000)

theorem constantVelocity_sampleFrames (positions : List JsonFloat) {timesMs : List Int}
    {xs ys zs : List JsonFloat} {position velocity : SampleFrame → JsonFloat} {x₀ v : ℚ}
    (hposition : ∀ i s, (sampleFrames timesMs xs ys zs)[i]? = some s → i < timesMs.length →
      position s = positions.getD i (.finite 0) ∧
        velocity s = (velocities timesMs positions).getD i (.finite 0))
    (htwo : 2 ≤ timesMs.length) (hincreasing : timesMs.Pairwise (· < ·))
    (h : ConstantVelocity (sampleFrames timesMs xs ys zs) position x₀ v) :
    ∀ s ∈ sampleFrames timesMs xs ys zs, velocity s = .finite v := by
  have huniform : Uniform timesMs positions x₀ v := by
    intro i hi
    have hget : (sampleFrames timesMs xs ys zs)[i]? = some _ := sampleFrames_getElem? hi
    rw [← (hposition i _ hget hi).1, h _ (List.mem_of_getElem? hget)]
  intro s hs
  obtain ⟨i, hget⟩ := List.mem_iff_getElem?.mp hs
  have hi : i < timesMs.length := by
    have hlt := (List.getElem?_eq_some_iff.mp hget).1
    rwa [length_sampleFrames] at hlt
  rw [(hposition i s hget hi).2]
  exact velocities_uniform htwo hincreasing huniform hi

/-- What the adapter keeps of a run. -/
structure KeepsRun (py : RigPython) (payload : Entries) (id : String) (t : ReplayTelemetry)
    (frames : List Entries) (start : Int) : Prop where
  /-- Every frame from the anchor on has its sample, on the clock of the first. -/
  run : ∃ first rest, frames.drop start.toNat = first :: rest ∧
    List.Forall₂ (SampleOf py (frameTime first)) (first :: rest) t.samples
  /-- An output with the same frames from its anchor on and the same ghost gives the same. -/
  only_run : ∀ payload' id' t' frames' start', telemetryFromRigOutput py payload' id' = .ok t' →
    requireFrames py payload' = .ok frames' → startFrameIndex py payload' = .ok start' →
    anchored start' frames' = true → frames'.drop start'.toNat = frames.drop start.toNat →
    item payload' "ghost" = item payload "ghost" →
    t'.samples = t.samples ∧ t'.checkpointSampleIndices = t.checkpointSampleIndices
  shifted : ∀ c, telemetryFromRigOutput py (shiftClock c payload) id = .ok t
  first_time : (t.samples.map SampleFrame.timeMs).head? = some 0
  /-- The checkpoints are the samples nearest to the splits as `int` reads them. -/
  checkpoints : ∃ splits ms, splitTimes (ghostOf payload) = .ok splits ∧
    List.Forall₂ (fun split m => split.toInt py.toPython = .ok m) splits ms ∧
    List.Forall₂ (fun m (index : Int) => ∃ i : Nat, index = i ∧
      NearestTo (t.samples.map SampleFrame.timeMs) m i) ms t.checkpointSampleIndices ∧
    ((t.samples.map SampleFrame.timeMs).Pairwise (· ≤ ·) → ms.Pairwise (· ≤ ·) →
      t.checkpointSampleIndices.Pairwise (· ≤ ·))
  velocity : 2 ≤ t.samples.length → (t.samples.map SampleFrame.timeMs).Pairwise (· < ·) →
    ∀ x₀ v,
      (ConstantVelocity t.samples SampleFrame.x x₀ v → ∀ s ∈ t.samples, s.vx = .finite v) ∧
      (ConstantVelocity t.samples SampleFrame.y x₀ v → ∀ s ∈ t.samples, s.vy = .finite v) ∧
      (ConstantVelocity t.samples SampleFrame.z x₀ v → ∀ s ∈ t.samples, s.vz = .finite v)
  wire : telemetryFromDict py.toSidecarPython (telemetryToDict t) = .ok t

theorem keepsRun_velocity {samples : List SampleFrame} (hclock : IntegerClock frames)
    (h : rigSamples py true frames = .ok samples) (htwo : 2 ≤ samples.length)
    (hincreasing : (samples.map SampleFrame.timeMs).Pairwise (· < ·)) (x₀ v : ℚ) :
    (ConstantVelocity samples SampleFrame.x x₀ v → ∀ s ∈ samples, s.vx = .finite v) ∧
      (ConstantVelocity samples SampleFrame.y x₀ v → ∀ s ∈ samples, s.vy = .finite v) ∧
      (ConstantVelocity samples SampleFrame.z x₀ v → ∀ s ∈ samples, s.vz = .finite v) := by
  obtain ⟨xs, ys, zs, -, -, -, rfl⟩ := rigSamples_eq hclock h
  rw [length_sampleFrames] at htwo
  rw [map_timeMs_sampleFrames] at hincreasing
  refine ⟨constantVelocity_sampleFrames xs (fun i s hs hi => ?_) htwo hincreasing,
    constantVelocity_sampleFrames ys (fun i s hs hi => ?_) htwo hincreasing,
    constantVelocity_sampleFrames zs (fun i s hs hi => ?_) htwo hincreasing⟩
  all_goals
    obtain rfl := Option.some.inj ((sampleFrames_getElem? hi).symm.trans hs)
    exact ⟨rfl, rfl⟩

/-- An anchored output with an integer clock that the adapter accepts. -/
theorem telemetryFromRigOutput_keepsRun (h : telemetryFromRigOutput py payload id = .ok t)
    (hframes : requireFrames py payload = .ok frames) (hclock : IntegerClock frames)
    (hstart : startFrameIndex py payload = .ok start) (hrange : anchored start frames = true) :
    KeepsRun py payload id t frames start := by
  obtain ⟨hsamples, ⟨splits, hsplits, hcheckpoints⟩, hchecked⟩ := adapted h hframes hstart
  have htrimmed : trimmed start frames = frames.drop start.toNat := if_pos hrange
  rw [hrange, htrimmed] at hsamples
  rw [hrange] at hcheckpoints
  have hlt : start.toNat < frames.length := by
    obtain ⟨h0, hlt⟩ := Bool.and_eq_true_iff.mp hrange
    have h0 := of_decide_eq_true h0
    have hlt := of_decide_eq_true hlt
    omega
  obtain ⟨first, rest, hdrop⟩ : ∃ first rest, frames.drop start.toNat = first :: rest :=
    ⟨_, _, List.drop_eq_getElem_cons hlt⟩
  have hrun : IntegerClock (first :: rest) := by
    intro frame hframe
    rw [← hdrop] at hframe
    exact hclock frame (List.mem_of_mem_drop hframe)
  have hsamples' : rigSamples py true (first :: rest) = .ok t.samples := hdrop ▸ hsamples
  obtain ⟨xs, ys, zs, -, -, -, heq⟩ := rigSamples_eq hrun hsamples'
  have htimes : t.samples.map SampleFrame.timeMs =
      (first :: rest).map fun frame => frameTime frame - frameTime first := by
    rw [heq, map_timeMs_sampleFrames, headD_map_frameTime]
  have hne : t.samples.map SampleFrame.timeMs ≠ [] := by
    rw [htimes]
    exact List.cons_ne_nil _ _
  obtain ⟨ms, hms, hindices⟩ := checkpointIndices_eq hcheckpoints
  refine ⟨⟨first, rest, hdrop, sampleOf_rigSamples hrun hsamples'⟩, ?_, fun c => ?_, ?_,
    ⟨splits, ms, hsplits, hms, ?_, ?_⟩, keepsRun_velocity hrun hsamples',
    telemetryFromDict_toDict _ hchecked⟩
  · intro payload' id' t' frames' start' h' hframes' hstart' hrange' hdrop' hghost
    obtain ⟨hsamples'', ⟨splits', hsplits', hcheckpoints'⟩, -⟩ := adapted h' hframes' hstart'
    rw [hrange', show trimmed start' frames' = frames'.drop start'.toNat from if_pos hrange',
      hdrop', hsamples] at hsamples''
    have hsame : t'.samples = t.samples := (Except.ok.inj hsamples'').symm
    have hghost' : ghostOf payload' = ghostOf payload := by rw [ghostOf, hghost, ghostOf]
    rw [hghost', hsplits] at hsplits'
    rw [hrange', hsame, ← Except.ok.inj hsplits', hcheckpoints] at hcheckpoints'
    exact ⟨hsame, (Except.ok.inj hcheckpoints').symm⟩
  · rw [telemetryFromRigOutput_shift hframes hclock hstart hrange, h]
  · rw [htimes, List.map_cons, List.head?_cons, sub_self]
  · rw [hindices, List.forall₂_map_right_iff]
    exact List.forall₂_same.mpr fun m _ => ⟨_, rfl, nearestTo_nearestSample hne m⟩
  · intro hnondecreasing hsplits
    rw [hindices]
    exact pairwise_nearestSample hne hnondecreasing hsplits

/-! ## A split between two samples -/

/-- Python on no text at all. -/
def textlessPython : RigPython where
  loads _ := .error .jsonDecodeError
  loadsBytes _ := .error .jsonDecodeError
  intOfText _ := none
  floatOfText _ := none
  digest _ := 0
  decodeError _ := ""
  str _ := ""
  repr _ := ""
  pathText p := p
  pathName p := p
  strip s := s
  lower s := s
  isDigit := Char.isDigit
  isSpace := Char.isWhitespace

def restingFrame (ms : Int) : Entries :=
  [("t_ms", .int ms), ("x", .float (.finite 0)), ("y", .float (.finite 0)),
    ("z", .float (.finite 0))]

/-- Two frames a millisecond apart, and a split of 0.9 ms. -/
def fractionalOutput : Entries :=
  [("protocol", .str "ai_rig_v1"), ("load_success", .bool true),
    ("frames", .arr [.obj (restingFrame 100), .obj (restingFrame 101)]),
    ("start_frame_index", .int 0), ("sample_period_ms", .int 50),
    ("ghost", .obj [("checkpoint_times_ms", .arr [.float (.finite (9 / 10))])])]

theorem fractionalOutput_eq :
    ((telemetryFromRigOutput textlessPython fractionalOutput "r1").toOption.map fun t =>
      (t.checkpointSampleIndices, t.samples.map SampleFrame.timeMs)) = some ([0], [0, 1]) := by
  decide +kernel

/-- The checkpoint is the sample at 0 ms, the split being read as 0; the one at 1 ms is nearer. -/
theorem fractional_split_not_nearest : ∃ t,
    telemetryFromRigOutput textlessPython fractionalOutput "r1" = .ok t ∧
      t.checkpointSampleIndices = [0] ∧ t.samples.map SampleFrame.timeMs = [0, 1] ∧
      |(1 : ℚ) - 9 / 10| < |(0 : ℚ) - 9 / 10| := by
  have heq := fractionalOutput_eq
  cases h : telemetryFromRigOutput textlessPython fractionalOutput "r1" with
  | error e =>
    rw [h] at heq
    cases heq
  | ok t =>
    rw [h] at heq
    obtain ⟨hindices, htimes⟩ := Prod.mk.inj (Option.some.inj heq)
    exact ⟨t, rfl, hindices, htimes, by decide +kernel⟩

theorem fractionalOutput_keepsRun : ∃ t,
    KeepsRun textlessPython fractionalOutput "r1" t [restingFrame 100, restingFrame 101] 0 := by
  have heq := fractionalOutput_eq
  cases h : telemetryFromRigOutput textlessPython fractionalOutput "r1" with
  | error e =>
    rw [h] at heq
    cases heq
  | ok t =>
    refine ⟨t, telemetryFromRigOutput_keepsRun h rfl ?_ rfl rfl⟩
    intro frame hframe
    obtain rfl | hframe := List.mem_cons.mp hframe
    · rfl
    · rw [List.mem_singleton.mp hframe]
      rfl

end TraxMania.Replay
