import TraxMania.Replay.Sidecars

/-
  The telemetry files that the cleaning pipeline handles: missing, no JSON, without samples, or
  right in every field.
-/

namespace TraxMania.Replay

open TraxMania.Generation TraxMania.Generation.Llm Lib.Outcome Lib.Enumerate

/-! ## The schema -/

/-- `_as_float` takes the value. -/
def Numeric (v : Json) : Prop :=
  (∃ x, v = .float x) ∨ ∃ n : Int, v = .int n ∧ n.natAbs < floatLimit

/-- A sample with all its fields. -/
structure SampleSchema (raw : Entries) : Prop where
  time : ∃ n, item raw "time_ms" = .int n
  x : Numeric (item raw "x")
  y : Numeric (item raw "y")
  z : Numeric (item raw "z")
  vx : Numeric (item raw "vx")
  vy : Numeric (item raw "vy")
  vz : Numeric (item raw "vz")

/-- A list of indices below `len`; an empty text and an empty mapping have no entries either. -/
def IndicesSchema (len : Nat) (v : Option Json) : Prop :=
  v = none ∨ v = some (.str "") ∨ v = some (.obj []) ∨
    ∃ items, v = some (.arr items) ∧ ∀ i ∈ items, ∃ n : Int, i = .int n ∧ 0 ≤ n ∧ n < len

/-- The telemetry payloads that are right in every field. -/
structure TelemetrySchema (entries : Entries) : Prop where
  version : item entries "schema_version" = .int telemetrySchemaVersion
  source : (entries.lookup "source_replay_id").isSome
  rate : ∃ n, item entries "sample_rate_hz" = .int n ∧ 0 < n
  finish : item entries "finish_time_ms" = .null ∨ ∃ n, item entries "finish_time_ms" = .int n
  extra : item entries "extra" = .null ∨ ∃ extra, item entries "extra" = .obj extra
  samples : ∃ raw, item entries "samples" = .arr raw ∧ raw ≠ [] ∧
    (∀ s ∈ raw, ∃ fields, s = .obj fields ∧ SampleSchema fields) ∧
    IndicesSchema raw.length (entries.lookup "checkpoint_sample_indices") ∧
    IndicesSchema raw.length (entries.lookup "restart_sample_indices")

theorem lookup_isSome_of_item {entries : Entries} {key : String} (h : item entries key ≠ .null) :
    (entries.lookup key).isSome := by
  unfold item at h
  cases hl : entries.lookup key with
  | none => exact absurd (by rw [hl]; rfl) h
  | some v => rfl

theorem returns_requireKeys {keys : List String} {e : String → Raised} {entries : Entries} :
    Returns (requireKeys keys e entries) ↔ ∀ key ∈ keys, (entries.lookup key).isSome := by
  unfold requireKeys firstMissing
  cases h : keys.find? fun key => (entries.lookup key).isNone with
  | none => simpa using h
  | some key =>
    have hmem := List.mem_of_find?_eq_some h
    have hnone := List.find?_some h
    refine ⟨fun h => absurd h (not_returns_error _), fun hall => ?_⟩
    have hsome := hall key hmem
    rw [Option.isNone_iff_eq_none] at hnone
    rw [hnone] at hsome
    cases hsome

theorem returns_asInt {name : String} {v : Json} : Returns (asInt name v) ↔ ∃ n, v = .int n := by
  cases v <;> simp [asInt]

theorem asInt_eq_ok {name : String} {v : Json} {n : Int} : asInt name v = .ok n ↔ v = .int n := by
  cases v <;> simp [asInt]

theorem returns_asFloat {name : String} {v : Json} : Returns (asFloat name v) ↔ Numeric v := by
  cases v with
  | int n =>
    simp only [asFloat, floatOfInt, Numeric]
    split
    · next h => simp [h]
    · next h => simp [h]
  | _ => simp [asFloat, Numeric]

theorem numeric_ne_null {v : Json} (h : Numeric v) : v ≠ .null := by
  rintro rfl
  rcases h with ⟨x, hx⟩ | ⟨n, hn, -⟩
  · cases hx
  · cases hn

/-- The fields that a sample must have are there. -/
theorem SampleSchema.keys {raw : Entries} (h : SampleSchema raw) :
    ∀ key ∈ sampleKeys, (raw.lookup key).isSome := by
  have htime : item raw "time_ms" ≠ .null := by
    obtain ⟨n, hn⟩ := h.time
    simp [hn]
  intro key hkey
  simp only [sampleKeys, List.mem_cons, List.not_mem_nil, or_false] at hkey
  rcases hkey with rfl | rfl | rfl | rfl | rfl | rfl | rfl
  · exact lookup_isSome_of_item htime
  · exact lookup_isSome_of_item (numeric_ne_null h.x)
  · exact lookup_isSome_of_item (numeric_ne_null h.y)
  · exact lookup_isSome_of_item (numeric_ne_null h.z)
  · exact lookup_isSome_of_item (numeric_ne_null h.vx)
  · exact lookup_isSome_of_item (numeric_ne_null h.vy)
  · exact lookup_isSome_of_item (numeric_ne_null h.vz)

theorem returns_sampleFrom (i : Nat) (v : Json) :
    Returns (sampleFrom i v) ↔ ∃ fields, v = .obj fields ∧ SampleSchema fields := by
  cases v with
  | obj raw =>
    have hrun : Returns (sampleFrom i (.obj raw)) ↔
        (∀ key ∈ sampleKeys, (raw.lookup key).isSome) ∧ (∃ n, item raw "time_ms" = .int n) ∧
          Numeric (item raw "x") ∧ Numeric (item raw "y") ∧ Numeric (item raw "z") ∧
          Numeric (item raw "vx") ∧ Numeric (item raw "vy") ∧ Numeric (item raw "vz") := by
      unfold sampleFrom
      refine (returns_bind fun _ _ => ?_).trans (and_congr_left' returns_requireKeys)
      refine (returns_bind fun _ _ => ?_).trans (and_congr_left' returns_asInt)
      refine (returns_bind fun _ _ => ?_).trans (and_congr_left' returns_asFloat)
      refine (returns_bind fun _ _ => ?_).trans (and_congr_left' returns_asFloat)
      refine (returns_bind fun _ _ => ?_).trans (and_congr_left' returns_asFloat)
      refine (returns_bind fun _ _ => ?_).trans (and_congr_left' returns_asFloat)
      refine (returns_bind fun _ _ => ?_).trans (and_congr_left' returns_asFloat)
      refine (returns_bind (p := True) fun _ _ => ?_).trans
        ((and_iff_left trivial).trans returns_asFloat)
      exact iff_true_intro (returns_pure _)
    rw [hrun]
    constructor
    · rintro ⟨-, ht, hx, hy, hz, hvx, hvy, hvz⟩
      exact ⟨raw, rfl, ⟨ht, hx, hy, hz, hvx, hvy, hvz⟩⟩
    · rintro ⟨fields, hfields, hs⟩
      obtain rfl := Json.obj.inj hfields
      exact ⟨hs.keys, hs.time, hs.x, hs.y, hs.z, hs.vx, hs.vy, hs.vz⟩
  | _ => simp [sampleFrom]

/-! ## Lists of indices -/

/-- The loop over the entries passes integers through. -/
theorem collect_asInt_eq_ok {name : Nat → String} {k : Nat} {values : List Json} {is : List Int} :
    collect (fun k => asInt (name k)) k values = .ok is ↔ values = is.map .int := by
  induction values generalizing k is with
  | nil =>
    rw [collect_nil_eq_ok, eq_comm (a := []), List.map_eq_nil_iff]
  | cons v values ih =>
    rw [collect_cons_eq_ok]
    constructor
    · rintro ⟨n, rest, hn, hrest, rfl⟩
      rw [asInt_eq_ok.mp hn, ih.mp hrest]
      rfl
    · intro h
      cases is with
      | nil => cases h
      | cons n rest =>
        obtain ⟨hn, hrest⟩ := List.cons.inj h
        exact ⟨n, rest, asInt_eq_ok.mpr hn, ih.mpr hrest, rfl⟩

/-- Values that are integers, as integers. -/
theorem exists_map_int {values : List Json} {P : Int → Prop}
    (h : ∀ v ∈ values, ∃ n : Int, v = .int n ∧ P n) : ∃ is : List Int, values = is.map .int := by
  induction values with
  | nil => exact ⟨[], rfl⟩
  | cons v values ih =>
    obtain ⟨n, rfl, -⟩ := h v List.mem_cons_self
    obtain ⟨is, his⟩ := ih fun v hv => h v (List.mem_cons_of_mem _ hv)
    exact ⟨n :: is, by rw [his]; rfl⟩

/-- Every index is one of `len` samples. -/
def InBounds (len : Nat) (is : List Int) : Prop := ∀ i ∈ is, 0 ≤ i ∧ i < len

theorem returns_requireInBounds {key : String} {len : Nat} {is : List Int} :
    Returns (requireInBounds key len is) ↔ InBounds len is := by
  unfold requireInBounds InBounds
  cases h : is.find? fun i => !(decide (0 ≤ i) && decide (i < (len : Int))) with
  | none => simpa using h
  | some i =>
    refine ⟨fun hr => absurd hr (not_returns_error _), fun hall => ?_⟩
    have hbad := List.find?_some h
    have hgood := hall i (List.mem_of_find?_eq_some h)
    simp [hgood.1, hgood.2] at hbad

/-- A value that can be iterated gives indices in bounds when its items are such. -/
theorem inBounds_of_iterate {key : String} {entries : Entries} {len : Nat} {v : Json}
    {values : List Json} (hv : entries.lookup key = some v) (hiter : v.iterate = .ok values) :
    (∃ is, indicesFrom key entries = .ok is ∧ InBounds len is) ↔
      ∀ i ∈ values, ∃ n : Int, i = .int n ∧ 0 ≤ n ∧ n < len := by
  have hread : ∀ is, indicesFrom key entries = .ok is ↔ values = is.map .int := by
    intro is
    unfold indicesFrom
    rw [hv]
    show ((v.iterate.mapError Raised.python) >>= _) = .ok is ↔ _
    rw [hiter]
    exact collect_asInt_eq_ok
  constructor
  · rintro ⟨is, his, hbounds⟩ i hi
    rw [(hread is).mp his] at hi
    obtain ⟨n, hn, rfl⟩ := List.mem_map.mp hi
    exact ⟨n, rfl, hbounds n hn⟩
  · intro hall
    obtain ⟨is, his⟩ := exists_map_int hall
    refine ⟨is, (hread is).mpr his, fun i hi => ?_⟩
    obtain ⟨n, hn, hbounds⟩ := hall (.int i) (his ▸ List.mem_map_of_mem hi)
    obtain rfl := Json.int.inj hn
    exact hbounds

/-- Texts are no indices. -/
theorem all_int_strs_iff {α : Type} {items : List α} {g : α → String} {P : Int → Prop} :
    (∀ i ∈ items.map fun x => Json.str (g x), ∃ n : Int, i = .int n ∧ P n) ↔ items = [] := by
  cases items with
  | nil => exact iff_of_true nofun rfl
  | cons x items =>
    apply iff_of_false
    · intro hall
      obtain ⟨n, hn, -⟩ := hall (.str (g x)) List.mem_cons_self
      cases hn
    · exact List.cons_ne_nil x items

/-- The indices of a key are read and in bounds exactly when its value has the schema. -/
theorem indicesFrom_inBounds {key : String} {entries : Entries} {len : Nat} :
    (∃ is, indicesFrom key entries = .ok is ∧ InBounds len is) ↔
      IndicesSchema len (entries.lookup key) := by
  cases hv : entries.lookup key with
  | none =>
    have hempty : indicesFrom key entries = .ok [] := by
      unfold indicesFrom
      rw [hv]
    simp [hempty, InBounds, IndicesSchema]
  | some v =>
    cases v with
    | null | bool _ | int _ | float _ =>
      have hnot : ∀ is, indicesFrom key entries ≠ .ok is := by
        intro is h
        unfold indicesFrom at h
        rw [hv] at h
        cases h
      simp [IndicesSchema, hnot]
    | str s =>
      rw [inBounds_of_iterate hv rfl, all_int_strs_iff, String.toList_eq_nil_iff]
      simp [IndicesSchema]
    | obj fields =>
      rw [inBounds_of_iterate hv rfl, all_int_strs_iff]
      simp [IndicesSchema]
    | arr items =>
      rw [inBounds_of_iterate hv rfl]
      simp [IndicesSchema]

/-! ## The payload -/

theorem returns_optionalInt {key : String} {entries : Entries} :
    Returns (optionalInt key entries) ↔
      item entries key = .null ∨ ∃ n, item entries key = .int n := by
  unfold optionalInt
  cases item entries key <;> simp [asInt, Except.map]

theorem returns_extraFrom {entries : Entries} :
    Returns (extraFrom entries) ↔
      item entries "extra" = .null ∨ ∃ extra, item entries "extra" = .obj extra := by
  unfold extraFrom
  cases item entries "extra" <;> simp

theorem returns_checked (t : ReplayTelemetry) :
    Returns t.checked ↔ t.schemaVersion = telemetrySchemaVersion ∧ 0 < t.sampleRateHz ∧
      t.samples ≠ [] ∧ InBounds t.samples.length t.checkpointSampleIndices ∧
      InBounds t.samples.length t.restartSampleIndices := by
  unfold ReplayTelemetry.checked
  refine (returns_bind fun _ _ => ?_).trans (and_congr_left' returns_require)
  refine (returns_bind fun _ _ => ?_).trans (and_congr_left' returns_require)
  refine (returns_bind fun _ _ => ?_).trans (and_congr_left' returns_require)
  refine (returns_bind fun _ _ => ?_).trans (and_congr_left' returns_requireInBounds)
  refine (returns_bind (p := True) fun _ _ => ?_).trans
    ((and_iff_left trivial).trans returns_requireInBounds)
  exact iff_true_intro (returns_pure _)

/-- The samples of a payload, one for each entry of its list. -/
theorem samplesFrom_eq_ok {entries : Entries} {samples : List SampleFrame}
    (h : samplesFrom entries = .ok samples) : ∃ raw, item entries "samples" = .arr raw ∧
      samples.length = raw.length ∧
      ∀ s ∈ raw, ∃ fields, s = .obj fields ∧ SampleSchema fields := by
  unfold samplesFrom at h
  cases hv : item entries "samples" with
  | arr raw =>
    rw [hv] at h
    exact ⟨raw, rfl, (getElem?_of_collect h).1,
      (returns_collect returns_sampleFrom 0 raw).mp ⟨samples, h⟩⟩
  | null | bool _ | int _ | float _ | str _ | obj _ =>
    rw [hv] at h
    cases h

theorem exists_samplesFrom {entries : Entries} {raw : List Json}
    (hv : item entries "samples" = .arr raw)
    (h : ∀ s ∈ raw, ∃ fields, s = .obj fields ∧ SampleSchema fields) :
    ∃ samples, samplesFrom entries = .ok samples ∧ samples.length = raw.length := by
  obtain ⟨samples, hs⟩ := (returns_collect returns_sampleFrom 0 raw).mpr h
  refine ⟨samples, ?_, (getElem?_of_collect hs).1⟩
  unfold samplesFrom
  rw [hv]
  exact hs

theorem TelemetrySchema.keys {entries : Entries} (h : TelemetrySchema entries) :
    ∀ key ∈ telemetryKeys, (entries.lookup key).isSome := by
  obtain ⟨n, hn, -⟩ := h.rate
  obtain ⟨raw, hraw, -⟩ := h.samples
  intro key hkey
  simp only [telemetryKeys, List.mem_cons, List.not_mem_nil, or_false] at hkey
  rcases hkey with rfl | rfl | rfl | rfl
  · exact lookup_isSome_of_item (by simp [h.version])
  · exact h.source
  · exact lookup_isSome_of_item (by simp [hn])
  · exact lookup_isSome_of_item (by simp [hraw])

/-- `from_dict` accepts exactly the payloads that are right in every field. -/
theorem returns_telemetryFromDict (py : SidecarPython) (entries : Entries) :
    Returns (telemetryFromDict py entries) ↔ TelemetrySchema entries := by
  unfold telemetryFromDict
  constructor
  · intro h
    obtain ⟨u, hkeys, h⟩ := returns_bind_iff.mp h
    obtain ⟨samples, hsamples, h⟩ := returns_bind_iff.mp h
    obtain ⟨finish, hfinish, h⟩ := returns_bind_iff.mp h
    obtain ⟨cps, hcps, h⟩ := returns_bind_iff.mp h
    obtain ⟨rs, hrs, h⟩ := returns_bind_iff.mp h
    obtain ⟨extra, hextra, h⟩ := returns_bind_iff.mp h
    obtain ⟨version, hversion, h⟩ := returns_bind_iff.mp h
    obtain ⟨rate, hrate, h⟩ := returns_bind_iff.mp h
    obtain ⟨hv, hpos, hne, hin, hin'⟩ := (returns_checked _).mp h
    obtain ⟨raw, hraw, hlength, hall⟩ := samplesFrom_eq_ok hsamples
    dsimp only at hv hpos hne hin hin'
    rw [hlength] at hin hin'
    refine ⟨?_, returns_requireKeys.mp ⟨u, hkeys⟩ _ (by simp [telemetryKeys]),
      ⟨rate, asInt_eq_ok.mp hrate, hpos⟩, returns_optionalInt.mp ⟨finish, hfinish⟩,
      returns_extraFrom.mp ⟨extra, hextra⟩, raw, hraw, ?_, hall,
      indicesFrom_inBounds.mp ⟨cps, hcps, hin⟩, indicesFrom_inBounds.mp ⟨rs, hrs, hin'⟩⟩
    · rw [← hv]
      exact asInt_eq_ok.mp hversion
    · rintro rfl
      exact hne (List.length_eq_zero_iff.mp hlength)
  · intro h
    obtain ⟨raw, hraw, hne, hall, hcp, hr⟩ := h.samples
    obtain ⟨samples, hsamples, hlength⟩ := exists_samplesFrom hraw hall
    obtain ⟨u, hkeys⟩ := returns_requireKeys.mpr h.keys
    obtain ⟨finish, hfinish⟩ := returns_optionalInt.mpr h.finish
    obtain ⟨cps, hcps, hin⟩ := indicesFrom_inBounds.mpr hcp
    obtain ⟨rs, hrs, hin'⟩ := indicesFrom_inBounds.mpr hr
    obtain ⟨extra, hextra⟩ := returns_extraFrom.mpr h.extra
    obtain ⟨rate, hrate, hpos⟩ := h.rate
    refine returns_bind_iff.mpr ⟨u, hkeys, returns_bind_iff.mpr ⟨samples, hsamples,
      returns_bind_iff.mpr ⟨finish, hfinish, returns_bind_iff.mpr ⟨cps, hcps,
      returns_bind_iff.mpr ⟨rs, hrs, returns_bind_iff.mpr ⟨extra, hextra,
      returns_bind_iff.mpr ⟨_, asInt_eq_ok.mpr h.version, returns_bind_iff.mpr
      ⟨rate, asInt_eq_ok.mpr hrate, (returns_checked _).mpr ⟨rfl, hpos, ?_, ?_, ?_⟩⟩⟩⟩⟩⟩⟩⟩⟩
    · intro hnil
      dsimp only at hnil
      rw [hnil] at hlength
      exact hne (List.length_eq_zero_iff.mp hlength.symm)
    · dsimp only
      rwa [hlength]
    · dsimp only
      rwa [hlength]

/-! ## The file -/

/-- The exception is a `TelemetryLoadError`. -/
def Raised.IsTelemetryLoad (e : Raised) : Prop := ∃ detail, e = .telemetryLoad detail

/-- The exception is no load error. -/
def Raised.NoLoad (e : Raised) : Prop :=
  (∀ detail, e ≠ .telemetryLoad detail) ∧ ∀ detail, e ≠ .breadcrumbsLoad detail

theorem noLoad_requireKeys {keys : List String} {e : String → Raised} {entries : Entries}
    (he : ∀ key, (e key).NoLoad) : Within Raised.NoLoad (requireKeys keys e entries) := by
  unfold requireKeys
  split
  · exact within_error.mpr (he _)
  · exact within_ok ()

theorem noLoad_asInt (name : String) (v : Json) : Within Raised.NoLoad (asInt name v) := by
  cases v <;> simp [asInt, Raised.NoLoad]

theorem noLoad_asFloat (name : String) (v : Json) : Within Raised.NoLoad (asFloat name v) := by
  cases v with
  | int n =>
    simp only [asFloat, floatOfInt]
    split <;> simp [Raised.NoLoad]
  | _ => simp [asFloat, Raised.NoLoad]

theorem noLoad_sampleFrom (i : Nat) (v : Json) : Within Raised.NoLoad (sampleFrom i v) := by
  cases v with
  | obj raw =>
    unfold sampleFrom
    refine within_bind.mpr ⟨noLoad_requireKeys fun key => by simp [Raised.NoLoad], fun _ _ => ?_⟩
    refine within_bind.mpr ⟨noLoad_asInt _ _, fun _ _ => ?_⟩
    refine within_bind.mpr ⟨noLoad_asFloat _ _, fun _ _ => ?_⟩
    refine within_bind.mpr ⟨noLoad_asFloat _ _, fun _ _ => ?_⟩
    refine within_bind.mpr ⟨noLoad_asFloat _ _, fun _ _ => ?_⟩
    refine within_bind.mpr ⟨noLoad_asFloat _ _, fun _ _ => ?_⟩
    refine within_bind.mpr ⟨noLoad_asFloat _ _, fun _ _ => ?_⟩
    exact within_bind.mpr ⟨noLoad_asFloat _ _, fun _ _ => within_pure _⟩
  | _ => simp [sampleFrom, Raised.NoLoad]

theorem noLoad_indicesFrom (key : String) (entries : Entries) :
    Within Raised.NoLoad (indicesFrom key entries) := by
  unfold indicesFrom
  split
  · exact within_ok []
  · next v _ =>
    refine within_bind.mpr
      ⟨fun e h => ?_, fun _ _ => within_collect (fun _ => noLoad_asInt _) 0 _⟩
    cases hv : v.iterate with
    | ok values =>
      rw [hv] at h
      cases h
    | error e' =>
      rw [hv] at h
      obtain rfl := Except.error.inj h
      simp [Raised.NoLoad]

theorem noLoad_requireInBounds (key : String) (len : Nat) (is : List Int) :
    Within Raised.NoLoad (requireInBounds key len is) := by
  unfold requireInBounds
  split
  · simp [Raised.NoLoad]
  · exact within_ok ()

/-- A payload that is not right raises a `TelemetryFormatError` or worse, no load error. -/
theorem noLoad_telemetryFromDict (py : SidecarPython) (entries : Entries) :
    Within Raised.NoLoad (telemetryFromDict py entries) := by
  unfold telemetryFromDict
  refine within_bind.mpr ⟨noLoad_requireKeys fun key => by simp [Raised.NoLoad], fun _ _ => ?_⟩
  refine within_bind.mpr ⟨?_, fun _ _ => ?_⟩
  · unfold samplesFrom
    split
    · exact within_collect noLoad_sampleFrom 0 _
    · simp [Raised.NoLoad]
  refine within_bind.mpr ⟨?_, fun _ _ => ?_⟩
  · unfold optionalInt
    cases item entries "finish_time_ms" <;> simp [asInt, Except.map, Raised.NoLoad]
  refine within_bind.mpr ⟨noLoad_indicesFrom _ _, fun _ _ => ?_⟩
  refine within_bind.mpr ⟨noLoad_indicesFrom _ _, fun _ _ => ?_⟩
  refine within_bind.mpr ⟨?_, fun _ _ => ?_⟩
  · unfold extraFrom
    cases item entries "extra" <;> simp [Raised.NoLoad]
  refine within_bind.mpr ⟨noLoad_asInt _ _, fun _ _ => ?_⟩
  refine within_bind.mpr ⟨noLoad_asInt _ _, fun _ _ => ?_⟩
  unfold ReplayTelemetry.checked
  refine within_bind.mpr ⟨within_require.mpr fun _ => by simp [Raised.NoLoad], fun _ _ => ?_⟩
  refine within_bind.mpr ⟨within_require.mpr fun _ => by simp [Raised.NoLoad], fun _ _ => ?_⟩
  refine within_bind.mpr ⟨within_require.mpr fun _ => by simp [Raised.NoLoad], fun _ _ => ?_⟩
  refine within_bind.mpr ⟨noLoad_requireInBounds _ _ _, fun _ _ => ?_⟩
  exact within_bind.mpr ⟨noLoad_requireInBounds _ _ _, fun _ _ => within_pure _⟩

/-- The contents of a telemetry file that the pipeline handles: none, no JSON, an object without
    samples, or one that is right in every field. -/
def TelemetryHandled (py : SidecarPython) : SidecarFile → Prop
  | .missing => True
  | .unreadable => False
  | .notUtf8 => False
  | .text content =>
    match py.loads content with
    | .error e => e = .jsonDecodeError
    | .ok (.obj entries) => truthy (item entries "samples") → TelemetrySchema entries
    | .ok _ => False

/-- The loader returns or raises a `TelemetryLoadError` exactly on the handled contents. -/
theorem within_loadTelemetry (py : SidecarPython) (files : String → SidecarFile)
    (row : ReplayRow) : Within Raised.IsTelemetryLoad (loadTelemetry py files row) ↔
      ∀ raw ∈ row.artifact, TelemetryHandled py (files (raw ++ ".telemetry.json")) := by
  unfold loadTelemetry
  cases hraw : row.artifact with
  | none => simp [Raised.IsTelemetryLoad]
  | some raw =>
    simp only [Option.mem_some_iff, forall_eq']
    cases files (raw ++ ".telemetry.json") with
    | missing => exact iff_of_true (within_error.mpr ⟨_, rfl⟩) trivial
    | unreadable =>
      refine iff_of_false (fun h => ?_) id
      obtain ⟨detail, hload⟩ := within_error.mp h
      cases hload
    | notUtf8 =>
      refine iff_of_false (fun h => ?_) id
      obtain ⟨detail, hload⟩ := within_error.mp h
      cases hload
    | text content =>
      simp only [readJson, TelemetryHandled]
      cases py.loads content with
      | error e => cases e <;> simp [within_bind, Raised.IsTelemetryLoad]
      | ok payload =>
        rw [within_bind, and_iff_right (within_ok _)]
        simp only [Except.ok.injEq, forall_eq']
        cases payload with
        | obj entries =>
          dsimp only
          split
          · next h =>
            simp only [h, forall_const]
            rw [← returns_telemetryFromDict py]
            constructor
            · intro hw
              cases hrun : telemetryFromDict py entries with
              | ok t => exact returns_ok t
              | error e =>
                obtain ⟨detail, he⟩ := hw e hrun
                exact absurd he ((noLoad_telemetryFromDict py entries e hrun).1 detail)
            · rintro ⟨t, ht⟩
              rw [ht]
              exact within_ok t
          · next h =>
            exact iff_of_true (within_error.mpr ⟨_, rfl⟩) fun h' => absurd h' h
        | null | bool _ | int _ | float _ | str _ | arr _ =>
          refine iff_of_false (fun h => ?_) id
          obtain ⟨detail, hload⟩ := within_error.mp h
          cases hload

end TraxMania.Replay
