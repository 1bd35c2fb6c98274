import TraxMania.Generation.AiMap
import TraxMania.Generation.ValidatedArtifact

/-
  The whole artifact of `generate_from_base`: the verdict of the finishability gate, the corridors
  it names, what the bundled schema wants of it, and the run that builds and validates it.
-/

namespace TraxMania.Generation.Generator

open Lib.Outcome Route Validation Strip Ai

/-! ## The finishability gate -/

/-- `FinishabilityResult`. -/
structure FinishabilityResult (σ : Type) extends Finishability σ where
  gateVersion : String
deriving DecidableEq

/-- `GATE_VERSION`. -/
def gateVersion : String := "finishability-v0"

/-- An entry of `route.corridors_used`. -/
structure CorridorUsed (σ : Type) where
  corridorId : Int
  intervalIndex : Nat
  learnedCorridorScore : σ
  corridorConfidence : Option σ
  containsVirtualEdge : Bool
  pathLengthCells : Int
  combinedSequenceScore : Option σ
deriving DecidableEq

/-- The artifact with its verdict. What is left out is a literal, a digest, a version text or a
    checked choice of the inputs. -/
structure GeneratedMap (σ : Type) extends Artifact σ where
  corridorsUsed : List (CorridorUsed σ)
  finishability : FinishabilityResult σ
deriving DecidableEq

variable {σ : Type}

def corridorUsed (iv : IntervalAssembly σ) : CorridorUsed σ where
  corridorId := iv.chosen.corridorId
  intervalIndex := iv.index
  learnedCorridorScore := iv.chosen.learnedCorridorScore
  corridorConfidence := iv.chosen.corridorConfidence
  containsVirtualEdge := iv.chosen.containsVirtualEdge
  pathLengthCells := iv.chosen.pathLength
  combinedSequenceScore := iv.chosen.combinedSequenceScore

/-- `_corridors_used_entries`. -/
def corridorsUsedEntries : Except AssemblyError (AssembledRoute σ) → List (CorridorUsed σ)
  | .error _ => []
  | .ok route => route.intervals.map corridorUsed

section Gate

variable [Decimals σ] (fixed : Nat → σ → String)

/-- `run_finishability_gate`; `fixed` prints a number with so many decimals. -/
def runFinishabilityGate : Except AssemblyError (AssembledRoute σ) → FinishabilityResult σ
  | .error e => ⟨⟨false, none, none, some e.reason, some e.detail⟩, gateVersion⟩
  | .ok route =>
    if route.aiConfidence < aiConfidenceFloor then
      ⟨⟨false, some route.estimatedTimeMs, some route.aiConfidence, some .confidenceBelowFloor,
        some ("ai_confidence " ++ fixed 3 route.aiConfidence ++ " below floor " ++
          fixed 2 aiConfidenceFloor)⟩, gateVersion⟩
    else ⟨⟨true, some route.estimatedTimeMs, some route.aiConfidence, none, none⟩, gateVersion⟩

/-- The verdict after the strip: a broken route overrides it. -/
def gateAfterStrip (gate : FinishabilityResult σ) (strip : Option StripResult) :
    FinishabilityResult σ :=
  match strip with
  | none => gate
  | some result =>
    if result.routeIntact then gate
    else { gate with
      routeVerified := false
      rejectReason := some .strippedRouteBroken
      detail := result.brokenDetail }

end Gate

/-! ## The bundled schema -/

/-- `$defs/Block`. -/
def BlockConforms (b : MapBlock) : Prop :=
  b.family ≠ "" ∧ b.name ≠ "" ∧ 0 ≤ b.rotation ∧ b.rotation ≤ 3

/-- `$defs/Checkpoint`. -/
def CheckpointConforms (c : MapCheckpoint) : Prop :=
  0 ≤ c.waypointIndex ∧ 0 ≤ c.waypointOrder ∧
    c.tag ∈ ["Spawn", "Checkpoint", "LinkedCheckpoint", "Goal"]

instance decidableBlockConforms (b : MapBlock) : Decidable (BlockConforms b) :=
  inferInstanceAs (Decidable (_ ∧ _ ∧ _ ∧ _))

instance decidableCheckpointConforms (c : MapCheckpoint) : Decidable (CheckpointConforms c) :=
  inferInstanceAs (Decidable (_ ∧ _ ∧ _))

section Schema

variable [Score σ]

/-- `"minimum": 0, "maximum": 1`. -/
def InUnit (x : σ) : Prop := zero ≤ x ∧ x ≤ one

instance decidableInUnit (x : σ) : Decidable (InUnit x) := inferInstanceAs (Decidable (_ ∧ _))

/-- `$defs/IntervalEntry`. -/
def IntervalConforms (e : IntervalEntry σ) : Prop :=
  e.srcTag ∈ ["Spawn", "Checkpoint", "LinkedCheckpoint"] ∧ 0 ≤ e.srcOrder ∧
    e.dstTag ∈ ["Checkpoint", "LinkedCheckpoint", "Goal"] ∧ 0 ≤ e.dstOrder ∧
    InUnit e.chosenCorridorScore ∧ 0 ≤ e.pathLengthCells ∧ 0 ≤ e.expectedTimeMs

instance decidableIntervalConforms (e : IntervalEntry σ) : Decidable (IntervalConforms e) :=
  inferInstanceAs (Decidable (_ ∧ _ ∧ _ ∧ _ ∧ _ ∧ _ ∧ _))

/-- `$defs/CorridorUsed`. -/
def CorridorUsedConforms (c : CorridorUsed σ) : Prop :=
  InUnit c.learnedCorridorScore ∧ 0 ≤ c.pathLengthCells ∧
    ∀ s ∈ c.combinedSequenceScore, InUnit s

instance decidableCorridorUsedConforms (c : CorridorUsed σ) : Decidable (CorridorUsedConforms c) :=
  inferInstanceAs (Decidable (_ ∧ _ ∧ _))

/-- `finishability`; every reason of the type is in the enumeration. -/
def FinishabilityConforms (f : FinishabilityResult σ) : Prop :=
  (∀ t ∈ f.estimatedTimeMs, 0 ≤ t) ∧ (∀ c ∈ f.aiConfidence, InUnit c) ∧
    f.gateVersion = "finishability-v0"

instance decidableFinishabilityConforms (f : FinishabilityResult σ) :
    Decidable (FinishabilityConforms f) := inferInstanceAs (Decidable (_ ∧ _ ∧ _))

/-- `map`; every policy of the type is in the enumeration, and the counts of blocks are lengths. -/
def MapConforms (a : Artifact σ) : Prop :=
  1 ≤ a.intervalCount ∧ 1 ≤ a.blocks.length ∧ (∀ b ∈ a.blocks, BlockConforms b) ∧
    2 ≤ a.checkpoints.length ∧ ∀ c ∈ a.checkpoints, CheckpointConforms c

instance decidableMapConforms (a : Artifact σ) : Decidable (MapConforms a) :=
  inferInstanceAs (Decidable (_ ∧ _ ∧ _ ∧ _ ∧ _))

/-- The document conforms to the schema. -/
def Conforms (g : GeneratedMap σ) : Prop :=
  MapConforms g.toArtifact ∧
    ((∀ e ∈ g.intervals, IntervalConforms e) ∧ 0 ≤ g.cellsTotal ∧
      ∀ c ∈ g.corridorsUsed, CorridorUsedConforms c) ∧
    FinishabilityConforms g.finishability

instance decidableConforms (g : GeneratedMap σ) : Decidable (Conforms g) :=
  inferInstanceAs (Decidable (_ ∧ (_ ∧ _ ∧ _) ∧ _))

/-- `validate_generated_map`; `message` is what `jsonschema` says of a document that fails. -/
def validateGeneratedMap (message : GeneratedMap σ → String) (g : GeneratedMap σ) :
    Option String :=
  if Conforms g then none else some (message g)

theorem validateGeneratedMap_eq_none {message : GeneratedMap σ → String} {g : GeneratedMap σ} :
    validateGeneratedMap message g = none ↔ Conforms g := by
  unfold validateGeneratedMap
  rw [ite_eq_left_iff]
  constructor
  · intro h
    by_contra hnot
    cases h hnot
  · intro h hnot
    exact absurd h hnot

end Schema

/-! ## The run -/

section Run

variable [Decimals σ]

/-- `_build_artifact` with the gate's verdict. -/
def buildGeneratedMap (fixed : Nat → σ → String) (inputs : GenerationInputs) (base : BaseMapData)
    (route : Except AssemblyError (AssembledRoute σ)) : GeneratedMap σ :=
  let strip := stripIfAsked inputs.strip route base
  { toArtifact := buildArtifact inputs base route strip
    corridorsUsed := corridorsUsedEntries route
    finishability := gateAfterStrip (runFinishabilityGate fixed route) strip }

/-- `generate_from_base`, with the artifact as the schema sees it. -/
def generateMap (py : Python) (fixed : Nat → σ → String) (message : GeneratedMap σ → String)
    (db : Database σ) (inputs : GenerationInputs) : Except Failure (GeneratedMap σ) :=
  match inputs.baseMapId with
  | none => .error (.valueError
      "v0 generation requires a base_map_id — scratch generation is deferred to v0.1+")
  | some mapId => do
    let (rows, base) ← fetchBaseMap db mapId
    let validator ← passOn (buildCandidateValidator py db rows base.blocks)
    let route ← passOn (assembleRoute py (assembleArgs rows mapId inputs.randomSeed validator))
    let g := buildGeneratedMap fixed inputs base route
    match validateGeneratedMap message g with
    | some err => .error (.runtimeError ("generated artifact failed schema validation: " ++ err))
    | none => .ok g

omit [Decimals σ] in
/-- The strip keeps the path cells, so it never overrides the verdict. -/
theorem gateAfterStrip_stripIfAsked (gate : FinishabilityResult σ) (strip : Bool)
    (route : Except AssemblyError (AssembledRoute σ)) (base : BaseMapData) :
    gateAfterStrip gate (stripIfAsked strip route base) = gate := by
  unfold stripIfAsked
  split
  · simp only [gateAfterStrip, stripRoute_intact, if_true]
  · rfl

/-- A returned artifact was built from the rows of its map, ranked and read, and conforms. -/
structure BuiltFrom (py : Python) (fixed : Nat → σ → String) (db : Database σ)
    (inputs : GenerationInputs) (g : GeneratedMap σ) (mapId : Int) (rows : MapRows σ)
    (validator : Option (Validator σ)) : Prop where
  asked : inputs.baseMapId = some mapId
  found : db.maps mapId = some rows
  ranked : buildCandidateValidator py db rows (baseMapData rows).blocks = .ok validator
  readable : Readable py (corridorsQuery Route.classificationVersion rows.corridors)
  built : g = buildGeneratedMap fixed inputs (baseMapData rows)
    (routeOf py rows mapId inputs.randomSeed validator)
  conforms : Conforms g

theorem generateMap_eq_ok {py : Python} {fixed : Nat → σ → String}
    {message : GeneratedMap σ → String} {db : Database σ} {inputs : GenerationInputs}
    {g : GeneratedMap σ} :
    generateMap py fixed message db inputs = .ok g ↔
      ∃ mapId rows validator, BuiltFrom py fixed db inputs g mapId rows validator := by
  unfold generateMap
  cases hid : inputs.baseMapId with
  | none =>
    constructor
    · intro h
      cases h
    · intro ⟨mapId, rows, validator, h⟩
      have hasked := h.asked
      rw [hid] at hasked
      cases hasked
  | some mapId =>
    constructor
    · intro h
      obtain ⟨⟨rows, base⟩, hfetch, h⟩ := bind_eq_ok.mp h
      obtain ⟨validator, hvalidator, h⟩ := bind_eq_ok.mp h
      obtain ⟨route, hroute, h⟩ := bind_eq_ok.mp h
      obtain ⟨hrows, rfl⟩ := fetchBaseMap_eq_ok.mp hfetch
      obtain ⟨hreadable, rfl⟩ := routeOf_of_assembled hroute
      dsimp only at h
      split at h
      · cases h
      · next hschema =>
        obtain rfl := Except.ok.inj h
        exact ⟨mapId, rows, validator, hid, hrows, passOn_eq_ok.mp hvalidator, hreadable, rfl,
          validateGeneratedMap_eq_none.mp hschema⟩
    · intro ⟨mapId', rows, validator, h⟩
      obtain rfl : mapId = mapId' := Option.some.inj (hid.symm.trans h.asked)
      have hfetch : fetchBaseMap db mapId = .ok (rows, baseMapData rows) :=
        fetchBaseMap_eq_ok.mpr ⟨h.found, rfl⟩
      have hroute : assembleRoute py (assembleArgs rows mapId inputs.randomSeed validator) =
          .ok (routeOf py rows mapId inputs.randomSeed validator) :=
        assembleRoute_of_readable h.readable
      have hvalid : validateGeneratedMap message (buildGeneratedMap fixed inputs (baseMapData rows)
          (routeOf py rows mapId inputs.randomSeed validator)) = none :=
        validateGeneratedMap_eq_none.mpr (h.built ▸ h.conforms)
      dsimp only
      rw [hfetch, ok_bind]
      dsimp only
      rw [passOn_eq_ok.mpr h.ranked, ok_bind, passOn_eq_ok.mpr hroute, ok_bind]
      simp only [hvalid, h.built]

end Run

end TraxMania.Generation.Generator
