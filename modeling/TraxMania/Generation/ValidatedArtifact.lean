import TraxMania.Generation.Revalidation

/-
  The two entry points side by side: what a run of `generate_from_base` that wrote an artifact did,
  what `validate_artifact_file` makes of that artifact, and when this is what was generated.
-/

namespace TraxMania.Generation.Generator

open Lib Lib.Outcome Route Validation

variable {σ : Type}

/-! ## The run that wrote the artifact -/

theorem passOn_eq_ok {α : Type} {x : Except PyError α} {a : α} :
    passOn x = .ok a ↔ x = .ok a := by
  cases x with
  | error e =>
    constructor
    · intro h
      cases h
    · intro h
      cases h
  | ok b => rw [passOn, Except.ok.injEq, Except.ok.injEq]

variable [Score σ]

theorem fetchBaseMap_eq_ok {db : Database σ} {mapId : Int} {rows : MapRows σ}
    {base : BaseMapData} :
    fetchBaseMap db mapId = .ok (rows, base) ↔
      db.maps mapId = some rows ∧ base = baseMapData rows := by
  unfold fetchBaseMap
  cases hrows : db.maps mapId with
  | none => simp
  | some rows' =>
    simp only [Except.ok.injEq, Option.some_inj, Prod.mk.injEq]
    constructor
    · rintro ⟨rfl, rfl⟩
      exact ⟨rfl, rfl⟩
    · rintro ⟨rfl, rfl⟩
      exact ⟨rfl, rfl⟩

/-- What `assemble_route` returns on rows that it could read. -/
def routeOf (py : Python) (rows : MapRows σ) (mapId seed : Int) (validator : Option (Validator σ)) :
    Except AssemblyError (AssembledRoute σ) :=
  assembleRouteFromInputs py.digest ((assembleArgs rows mapId seed validator).read py)

/-- The route that both entry points go on with was assembled from rows that could be read. -/
theorem routeOf_of_assembled {py : Python} {rows : MapRows σ} {mapId seed : Int}
    {validator : Option (Validator σ)} {route : Except AssemblyError (AssembledRoute σ)}
    (h : passOn (assembleRoute py (assembleArgs rows mapId seed validator)) = .ok route) :
    Readable py (corridorsQuery Route.classificationVersion rows.corridors) ∧
      route = routeOf py rows mapId seed validator := by
  have hroute := passOn_eq_ok.mp h
  have hreadable := readable_of_assembleRoute hroute
  rw [assembleRoute_of_readable hreadable, Except.ok.injEq] at hroute
  exact ⟨hreadable, hroute.symm⟩

/-- `generate_from_base` wrote `artifact` from these rows, ranking with this validator. -/
structure WrittenFrom (py : Python) (schemaError : Artifact σ → Option String) (db : Database σ)
    (inputs : GenerationInputs) (artifact : Artifact σ) (mapId : Int) (rows : MapRows σ)
    (validator : Option (Validator σ)) : Prop where
  asked : inputs.baseMapId = some mapId
  found : db.maps mapId = some rows
  ranked : buildCandidateValidator py db rows (baseMapData rows).blocks = .ok validator
  readable : Readable py (corridorsQuery Route.classificationVersion rows.corridors)
  built : artifact = buildArtifact inputs (baseMapData rows)
    (routeOf py rows mapId inputs.randomSeed validator)
    (stripIfAsked inputs.strip (routeOf py rows mapId inputs.randomSeed validator)
      (baseMapData rows))
  valid : schemaError artifact = none

theorem writtenFrom_of_ok {py : Python} {schemaError : Artifact σ → Option String}
    {db : Database σ} {inputs : GenerationInputs} {artifact : Artifact σ}
    (h : generateFromBase py schemaError db inputs = .ok artifact) :
    ∃ mapId rows validator,
      WrittenFrom py schemaError db inputs artifact mapId rows validator := by
  unfold generateFromBase at h
  cases hid : inputs.baseMapId with
  | none =>
    rw [hid] at h
    cases h
  | some mapId =>
    rw [hid] at h
    obtain ⟨⟨rows, base⟩, hfetch, h⟩ := bind_eq_ok.mp h
    obtain ⟨validator, hvalidator, h⟩ := bind_eq_ok.mp h
    obtain ⟨route, hroute, h⟩ := bind_eq_ok.mp h
    obtain ⟨hrows, rfl⟩ := fetchBaseMap_eq_ok.mp hfetch
    obtain ⟨hreadable, rfl⟩ := routeOf_of_assembled hroute
    dsimp only at h
    split at h
    · cases h
    · next hschema =>
      obtain rfl := Except.ok.inj h
      exact ⟨mapId, rows, validator, hid, hrows, passOn_eq_ok.mp hvalidator, hreadable, rfl,
        hschema⟩

/-- The validation of a written artifact runs to the validators, on the plain route. -/
theorem validateArtifactFile_of_written {py : Python} {schemaError : Artifact σ → Option String}
    {db : Database σ} {inputs : GenerationInputs} {artifact : Artifact σ} {mapId : Int}
    {rows : MapRows σ} {validator : Option (Validator σ)}
    (h : WrittenFrom py schemaError db inputs artifact mapId rows validator)
    (artifactPath : String) :
    validateArtifactFile py schemaError db artifactPath artifact =
      .ok ⟨routeOf py rows mapId inputs.randomSeed none, emittedBlocks (baseMapData rows)
        (stripIfAsked inputs.strip (routeOf py rows mapId inputs.randomSeed none)
          (baseMapData rows))⟩ := by
  have hinputs : artifact.inputs = inputs := by
    rw [h.built]
    rfl
  have hfetch : fetchBaseMap db mapId = .ok (rows, baseMapData rows) :=
    fetchBaseMap_eq_ok.mpr ⟨h.found, rfl⟩
  have hroute : assembleRoute py (assembleArgs rows mapId inputs.randomSeed none) =
      .ok (routeOf py rows mapId inputs.randomSeed none) := assembleRoute_of_readable h.readable
  unfold validateArtifactFile
  rw [h.valid, hinputs]
  dsimp only
  rw [h.asked]
  dsimp only
  rw [hfetch, ok_bind]
  dsimp only
  rw [passOn_eq_ok.mpr hroute, ok_bind]
  rfl

/-! ## The artifact again -/

/-- The validation assembles the corridors of the artifact's intervals and runs on its blocks. -/
def Revalidates (py : Python) (schemaError : Artifact σ → Option String) (db : Database σ)
    (artifactPath : String) (artifact : Artifact σ) : Prop :=
  ∃ v, validateArtifactFile py schemaError db artifactPath artifact = .ok v ∧
    intervalEntries v.route = artifact.intervals ∧ v.blocks = artifact.blocks

omit [Score σ] in
/-- The lookup has an entry exactly when the catalogue has a row. -/
theorem loadGeometryLookup_isEmpty {db : Database σ} :
    (loadGeometryLookup db).items.isEmpty = true ↔ db.blockGeometry = [] := by
  unfold loadGeometryLookup
  cases db.blockGeometry with
  | nil => simp [Dict.empty]
  | cons r rest =>
    have hkey : ∀ (d : GeometryLookup) (b : BlockGeometryRow),
        (d.upsert (b.blockFamily, b.blockName) fun _ => b.info).items ≠ [] := by
      intro d b hnil
      have hmem := Dict.mem_keys_upsert (d := d) (f := fun _ => b.info) |>.mpr
        (Or.inl (rfl : (b.blockFamily, b.blockName) = _))
      rw [Dict.keys, hnil] at hmem
      cases hmem
    have hitems : (rest.foldl (fun (d : GeometryLookup) b =>
        d.upsert (b.blockFamily, b.blockName) fun _ => b.info)
          (Dict.empty.upsert (r.blockFamily, r.blockName) fun _ => r.info)).items ≠ [] :=
      List.foldlRecOn rest _ (motive := fun d : GeometryLookup => d.items ≠ [])
        (hkey _ r) fun d _ b _ => hkey d b
    rw [List.foldl_cons, List.isEmpty_iff]
    constructor
    · intro hnil
      exact absurd hnil hitems
    · intro hnil
      cases hnil

/-- There is no validator exactly when the catalogue is empty. -/
theorem validator_none_iff {py : Python} {db : Database σ} {rows : MapRows σ}
    {baseBlocks : List MapBlock} {validator : Option (Validator σ)}
    (h : buildCandidateValidator py db rows baseBlocks = .ok validator) :
    validator = none ↔ db.blockGeometry = [] := by
  unfold buildCandidateValidator at h
  rw [← loadGeometryLookup_isEmpty]
  dsimp only at h
  split at h
  · next hempty =>
    obtain rfl := Except.ok.inj h
    exact ⟨fun _ => hempty, fun _ => rfl⟩
  · next hempty =>
    obtain ⟨cells, -, h⟩ := bind_eq_ok.mp h
    obtain rfl := Except.ok.inj h
    constructor
    · intro hnone
      cases hnone
    · intro hempty'
      exact absurd hempty' hempty

/-- The catalogue is empty, so that there is no validator, or the picks are reproduced. -/
def Reproduced (py : Python) (db : Database σ) (inputs : GenerationInputs) : Prop :=
  ∃ mapId rows validator, inputs.baseMapId = some mapId ∧ db.maps mapId = some rows ∧
    buildCandidateValidator py db rows (baseMapData rows).blocks = .ok validator ∧
    (db.blockGeometry = [] ∨
      PicksReproduced py.digest ((assembleArgs rows mapId inputs.randomSeed validator).read py))

/-- On a written artifact the two runs agree when the intervals do. -/
theorem revalidates_iff_of_written {py : Python} {schemaError : Artifact σ → Option String}
    {db : Database σ} {inputs : GenerationInputs} {artifact : Artifact σ} {mapId : Int}
    {rows : MapRows σ} {validator : Option (Validator σ)}
    (h : WrittenFrom py schemaError db inputs artifact mapId rows validator)
    (artifactPath : String) :
    Revalidates py schemaError db artifactPath artifact ↔
      db.blockGeometry = [] ∨ PicksReproduced py.digest
        ((assembleArgs rows mapId inputs.randomSeed validator).read py) := by
  unfold Revalidates
  rw [validateArtifactFile_of_written h artifactPath, h.built]
  simp only [Except.ok.injEq, exists_eq_left']
  cases hvalidator : validator with
  | none =>
    have hempty := (validator_none_iff h.ranked).mp hvalidator
    constructor
    · intro _
      exact Or.inl hempty
    · intro _
      exact ⟨rfl, rfl⟩
  | some v =>
    have hids := read_ids_nodup py rows mapId inputs.randomSeed (some v)
    have hflag :
        ((assembleArgs rows mapId inputs.randomSeed (some v)).read py).useValidationTieBreak =
          true := rfl
    have hentries := intervalEntries_agree_iff py.digest hflag hids
    have hblocks := emittedBlocks_eq py.digest hids inputs.strip (baseMapData rows)
    rw [← read_none] at hentries hblocks
    constructor
    · rintro ⟨hsame, -⟩
      exact Or.inr (hentries.mp hsame)
    · rintro (hempty | hpicks)
      · have hnone := (validator_none_iff h.ranked).mpr hempty
        rw [hvalidator] at hnone
        cases hnone
      · have hsame := hentries.mpr hpicks
        exact ⟨hsame, hblocks hsame⟩

/-- The validated artifact is the generated one exactly when there is no catalogue to rank with, or
    when the ranking without it reproduces every pick. -/
theorem revalidates_iff {py : Python} {schemaError : Artifact σ → Option String} {db : Database σ}
    {inputs : GenerationInputs} {artifact : Artifact σ}
    (h : generateFromBase py schemaError db inputs = .ok artifact) (artifactPath : String) :
    Revalidates py schemaError db artifactPath artifact ↔ Reproduced py db inputs := by
  obtain ⟨mapId, rows, validator, hwritten⟩ := writtenFrom_of_ok h
  rw [revalidates_iff_of_written hwritten artifactPath]
  constructor
  · intro hor
    exact ⟨mapId, rows, validator, hwritten.asked, hwritten.found, hwritten.ranked, hor⟩
  · rintro ⟨mapId', rows', validator', hasked, hfound, hranked, hor⟩
    obtain rfl := Option.some.inj (hwritten.asked.symm.trans hasked)
    obtain rfl := Option.some.inj (hwritten.found.symm.trans hfound)
    obtain rfl := Except.ok.inj (hwritten.ranked.symm.trans hranked)
    exact hor

/-! ## A climb that the validator ranks last -/

/-- `json.loads` and `blake2b` on the texts of the example. -/
def climbPython : Python where
  loads text :=
    if text = "[[10, 9, 10], [20, 14, 10], [30, 9, 10]]" then
      .ok (.arr [.arr [.int 10, .int 9, .int 10], .arr [.int 20, .int 14, .int 10],
        .arr [.int 30, .int 9, .int 10]])
    else if text = "[[10, 9, 10], [20, 9, 10], [30, 9, 10]]" then
      .ok (.arr [.arr [.int 10, .int 9, .int 10], .arr [.int 20, .int 9, .int 10],
        .arr [.int 30, .int 9, .int 10]])
    else if text = "[[30, 9, 10], [40, 9, 10], [50, 9, 10]]" then
      .ok (.arr [.arr [.int 30, .int 9, .int 10], .arr [.int 40, .int 9, .int 10],
        .arr [.int 50, .int 9, .int 10]])
    else .error .jsonDecodeError
  intOfText _ := none
  digest text := if text = "42:0" then 1803618088285070547 else 7003778869905922103

def roadRow (i x y : Int) : BlockPlacementRow where
  placementIndex := i
  blockFamily := some "RoadTech"
  blockType := some "RoadTechStraight"
  x := x
  y := y
  z := 10
  rotation := some 0

def climbCorridor (id : Int) (src dst : String × Int) (pathCells : String) : StoredCorridor ℚ where
  id := id
  mapId := 1
  srcTag := src.1
  srcOrder := src.2
  dstTag := dst.1
  dstOrder := dst.2
  pathCells := pathCells
  pathLength := 3
  containsVirtualEdge := true
  corridorConfidence := none
  learnedCorridorScore := some (3 / 4)
  combinedSequenceScore := none
  classificationVersion := Route.classificationVersion

/-- A climb and a flat road to the checkpoint, alike in every column of the plain tie-break but the
    id, and a road to the goal. -/
def climbRows : MapRows ℚ where
  blockPlacements := [roadRow 0 10 9, roadRow 1 20 14, roadRow 2 20 9, roadRow 3 30 9,
    roadRow 4 40 9, roadRow 5 50 9]
  waypoints := [
    { waypointIndex := 0, waypointOrder := 0, tag := "Spawn", x := some 10, y := some 9,
      z := some 10, absX := none, absY := none, absZ := none },
    { waypointIndex := 1, waypointOrder := 1, tag := "LinkedCheckpoint", x := some 30, y := some 9,
      z := some 10, absX := none, absY := none, absZ := none },
    { waypointIndex := 2, waypointOrder := 0, tag := "Goal", x := some 50, y := some 9,
      z := some 10, absX := none, absY := none, absZ := none }]
  corridors := [
    climbCorridor 1 ("Spawn", 0) ("LinkedCheckpoint", 1) "[[10, 9, 10], [20, 14, 10], [30, 9, 10]]",
    climbCorridor 2 ("Spawn", 0) ("LinkedCheckpoint", 1) "[[10, 9, 10], [20, 9, 10], [30, 9, 10]]",
    climbCorridor 3 ("LinkedCheckpoint", 1) ("Goal", 0) "[[30, 9, 10], [40, 9, 10], [50, 9, 10]]"]
  ids_nodup := by decide

def climbDatabase (blockGeometry : List BlockGeometryRow) : Database ℚ where
  maps mapId := if mapId = 1 then some climbRows else none
  blockGeometry := blockGeometry

/-- A catalogue with the one block of the map. -/
def roadCatalogue : List BlockGeometryRow := [⟨"RoadTech", "RoadTechStraight", 1, .straight, false⟩]

def climbInputs : GenerationInputs := { baseMapId := some 1, strip := true }

def noSchemaError (_ : Artifact ℚ) : Option String := none

def chosenIds (intervals : List (IntervalEntry ℚ)) : List Int := intervals.map (·.chosenCorridorId)

/-- Without a catalogue the artifact is assembled again as it was. -/
theorem revalidates_climb : ∃ artifact,
    generateFromBase climbPython noSchemaError (climbDatabase []) climbInputs = .ok artifact ∧
      Revalidates climbPython noSchemaError (climbDatabase []) "run.json" artifact := by
  have hchosen : (generateFromBase climbPython noSchemaError (climbDatabase []) climbInputs).map
      (fun a => chosenIds a.intervals) = .ok [2, 3] := by decide +kernel
  cases hrun : generateFromBase climbPython noSchemaError (climbDatabase []) climbInputs with
  | error e =>
    rw [hrun] at hchosen
    cases hchosen
  | ok artifact =>
    refine ⟨artifact, rfl, (revalidates_iff hrun "run.json").mpr ?_⟩
    exact ⟨1, climbRows, none, rfl, rfl, rfl, Or.inl rfl⟩

/-- With the catalogue the climb is generated and the flat road validated, over other blocks. -/
theorem not_revalidates_climb : ∃ artifact v,
    generateFromBase climbPython noSchemaError (climbDatabase roadCatalogue) climbInputs =
        .ok artifact ∧
      validateArtifactFile climbPython noSchemaError (climbDatabase roadCatalogue) "run.json"
        artifact = .ok v ∧
      chosenIds artifact.intervals = [1, 3] ∧ chosenIds (intervalEntries v.route) = [2, 3] ∧
      artifact.blocks.map (·.y) = [9, 14, 9, 9, 9] ∧ v.blocks.map (·.y) = [9, 9, 9, 9, 9] ∧
      ¬ Revalidates climbPython noSchemaError (climbDatabase roadCatalogue) "run.json"
        artifact := by
  have hruns : (do
      let artifact ← generateFromBase climbPython noSchemaError (climbDatabase roadCatalogue)
        climbInputs
      let v ← validateArtifactFile climbPython noSchemaError (climbDatabase roadCatalogue)
        "run.json" artifact
      return (chosenIds artifact.intervals, chosenIds (intervalEntries v.route),
        artifact.blocks.map (·.y), v.blocks.map (·.y))) =
      Except.ok ([1, 3], [2, 3], [9, 14, 9, 9, 9], [9, 9, 9, 9, 9]) := by decide +kernel
  obtain ⟨artifact, hartifact, hruns⟩ := bind_eq_ok.mp hruns
  obtain ⟨v, hv, hruns⟩ := bind_eq_ok.mp hruns
  have hseen := Except.ok.inj hruns
  simp only [Prod.mk.injEq] at hseen
  obtain ⟨hgenerated, hvalidated, hblocks, hblocks'⟩ := hseen
  refine ⟨artifact, v, hartifact, hv, hgenerated, hvalidated, hblocks, hblocks', ?_⟩
  rintro ⟨v', hv', hsame, -⟩
  obtain rfl := Except.ok.inj (hv.symm.trans hv')
  have hids := congrArg chosenIds hsame
  rw [hgenerated, hvalidated] at hids
  revert hids
  decide

end TraxMania.Generation.Generator
