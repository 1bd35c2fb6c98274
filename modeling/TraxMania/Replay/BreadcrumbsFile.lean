import TraxMania.Replay.TelemetryFile

/-
  The breadcrumbs files that the cleaning pipeline handles. A file may be wrong in its shape, but
  not in a number that `int` is called on before the shape is seen to be wrong.
-/

namespace TraxMania.Replay

open TraxMania.Generation TraxMania.Generation.Llm Lib.Outcome Lib.Enumerate

/-! ## The objects that are handled -/

/-- The exception is a `BreadcrumbsFormatError`. -/
def Raised.IsCrumbsFormat (e : Raised) : Prop := ∃ detail, e = .breadcrumbsFormat detail

/-- The exception is a `BreadcrumbsLoadError`. -/
def Raised.IsCrumbsLoad (e : Raised) : Prop := ∃ detail, e = .breadcrumbsLoad detail

/-- `int(v)` returns. -/
def IntReads (py : SidecarPython) (v : Json) : Prop := Returns (v.toInt py.toPython)

/-- The value is no infinite float. -/
def NotInfinite (v : Json) : Prop := ∀ negative, v ≠ .float (.infinite negative)

/-- `int` returns for the times of all inputs before the first that is no object. -/
def TimesRead (py : SidecarPython) : List Json → Prop
  | [] => True
  | .obj raw :: rest =>
    (item raw "time_ms" = .null ∨ IntReads py (item raw "time_ms")) ∧ TimesRead py rest
  | _ :: _ => True

/-- The objects that the breadcrumbs parser handles. With the three fields and a list of inputs,
    the times of the inputs have to be numbers. When the inputs are all objects and the checkpoint
    times are a list, these have to be numbers, and then the schema version, the finish time and
    the number of inputs: in the order in which the parser comes to them. -/
def CrumbsHandled (py : SidecarPython) (entries : Entries) : Prop :=
  (∀ key ∈ breadcrumbsKeys, (entries.lookup key).isSome) →
    ∀ inputs, field entries "inputs" (.arr []) = .arr inputs → TimesRead py inputs ∧
      ((∀ v ∈ inputs, ∃ raw, v = .obj raw) →
        ∀ times, field entries "checkpoint_times_ms" (.arr []) = .arr times →
          (∀ t ∈ times, IntReads py t) ∧ NotInfinite (item entries "schema_version") ∧
            (IntReads py (item entries "schema_version") →
              (item entries "finish_time_ms" = .null ∨
                IntReads py (item entries "finish_time_ms")) ∧
              NotInfinite (item entries "inputs_count")))

theorem within_intOf {E : Raised → Prop} {py : SidecarPython} {v : Json}
    (hE : ∀ e, ¬ E (.python e)) : Within E (intOf py v) ↔ IntReads py v := by
  unfold intOf IntReads
  cases v.toInt py.toPython with
  | ok n => exact iff_of_true (within_ok n) (returns_ok n)
  | error e => exact iff_of_false (fun h => hE e (within_error.mp h)) (not_returns_error e)

theorem returns_intOf {py : SidecarPython} {v : Json} : Returns (intOf py v) ↔ IntReads py v := by
  unfold intOf IntReads
  cases v.toInt py.toPython with
  | ok n => exact iff_of_true (returns_ok n) (returns_ok n)
  | error e => exact iff_of_false (not_returns_error _) (not_returns_error e)

theorem not_isCrumbsFormat_python (e : PyError) : ¬ (Raised.python e).IsCrumbsFormat :=
  fun ⟨_, h⟩ => nomatch h

/-- `_as_int` lets an infinite float through to `int`. -/
theorem within_crumbInt {py : SidecarPython} {entries : Entries} {key : String} :
    Within Raised.IsCrumbsFormat (crumbInt py entries key) ↔ NotInfinite (item entries key) := by
  unfold crumbInt NotInfinite
  cases item entries key with
  | null => simp [Raised.IsCrumbsFormat]
  | float x =>
    cases x <;> simp [Json.toInt, Raised.IsCrumbsFormat]
  | str s =>
    simp only [Json.toInt]
    cases py.intOfText s <;> simp [Raised.IsCrumbsFormat]
  | bool _ | int _ | arr _ | obj _ => simp [Json.toInt, Raised.IsCrumbsFormat]

theorem returns_crumbInt {py : SidecarPython} {entries : Entries} {key : String} :
    Returns (crumbInt py entries key) ↔ IntReads py (item entries key) := by
  unfold crumbInt IntReads
  cases item entries key with
  | null => simp [Json.toInt]
  | float x => cases x <;> simp [Json.toInt]
  | str s =>
    simp only [Json.toInt]
    cases py.intOfText s <;> simp
  | bool _ | int _ | arr _ | obj _ => simp [Json.toInt]

theorem within_finishFrom {py : SidecarPython} {entries : Entries} :
    Within Raised.IsCrumbsFormat (finishFrom py entries) ↔
      item entries "finish_time_ms" = .null ∨ IntReads py (item entries "finish_time_ms") := by
  have hmap : ∀ v, Within Raised.IsCrumbsFormat ((intOf py v).map some) ↔ IntReads py v := by
    intro v
    rw [← within_intOf not_isCrumbsFormat_python]
    cases intOf py v with
    | ok n => exact iff_of_true (within_ok _) (within_ok n)
    | error e => exact within_error.trans within_error.symm
  unfold finishFrom
  cases hv : item entries "finish_time_ms" with
  | null => simp
  | bool _ | int _ | float _ | str _ | arr _ | obj _ => simp [hmap]

theorem returns_finishFrom {py : SidecarPython} {entries : Entries} :
    Returns (finishFrom py entries) ↔
      item entries "finish_time_ms" = .null ∨ IntReads py (item entries "finish_time_ms") := by
  have hmap : ∀ v, Returns ((intOf py v).map some) ↔ IntReads py v := by
    intro v
    rw [← returns_intOf]
    cases intOf py v with
    | ok n => exact iff_of_true (returns_ok _) (returns_ok n)
    | error e => exact iff_of_false (not_returns_error _) (not_returns_error e)
  unfold finishFrom
  cases hv : item entries "finish_time_ms" with
  | null => simp
  | bool _ | int _ | float _ | str _ | arr _ | obj _ => simp [hmap]

theorem within_timeFrom {py : SidecarPython} {raw : Entries} :
    Within Raised.IsCrumbsFormat (timeFrom py raw) ↔
      item raw "time_ms" = .null ∨ IntReads py (item raw "time_ms") := by
  unfold timeFrom
  cases item raw "time_ms" with
  | null => simp
  | bool _ | int _ | float _ | str _ | arr _ | obj _ =>
    simp [within_intOf not_isCrumbsFormat_python]

theorem returns_timeFrom {py : SidecarPython} {raw : Entries} :
    Returns (timeFrom py raw) ↔
      item raw "time_ms" = .null ∨ IntReads py (item raw "time_ms") := by
  unfold timeFrom
  cases item raw "time_ms" with
  | null => simp
  | bool _ | int _ | float _ | str _ | arr _ | obj _ => simp [returns_intOf]

theorem returns_inputFrom {py : SidecarPython} {i : Nat} {raw : Entries} :
    Returns (inputFrom py i (.obj raw)) ↔
      item raw "time_ms" = .null ∨ IntReads py (item raw "time_ms") := by
  unfold inputFrom
  refine (returns_bind (p := True) fun _ _ => iff_true_intro (returns_pure _)).trans ?_
  rw [and_iff_left trivial]
  exact returns_timeFrom

theorem within_inputFrom {py : SidecarPython} {i : Nat} {raw : Entries} :
    Within Raised.IsCrumbsFormat (inputFrom py i (.obj raw)) ↔
      item raw "time_ms" = .null ∨ IntReads py (item raw "time_ms") := by
  unfold inputFrom
  refine within_bind.trans ?_
  rw [and_iff_left fun _ _ => within_pure _]
  exact within_timeFrom

/-- The first input that is no object ends the loop with a format error. -/
theorem within_inputs {py : SidecarPython} (k : Nat) (inputs : List Json) :
    Within Raised.IsCrumbsFormat (collect (inputFrom py) k inputs) ↔ TimesRead py inputs := by
  induction inputs generalizing k with
  | nil => exact iff_of_true (within_ok []) trivial
  | cons v inputs ih =>
    rw [within_collect_cons]
    cases v with
    | obj raw =>
      rw [within_inputFrom, TimesRead]
      refine and_congr_right fun h => ?_
      obtain ⟨event, hevent⟩ := (returns_inputFrom (i := k)).mpr h
      simp [hevent, ih]
    | null | bool _ | int _ | float _ | str _ | arr _ =>
      simp [inputFrom, TimesRead, Raised.IsCrumbsFormat]

theorem returns_inputs {py : SidecarPython} {k : Nat} {inputs : List Json}
    (h : TimesRead py inputs) :
    Returns (collect (inputFrom py) k inputs) ↔ ∀ v ∈ inputs, ∃ raw, v = .obj raw := by
  constructor
  · rintro ⟨events, hevents⟩ v hv
    obtain ⟨i, hi⟩ := List.mem_iff_getElem?.mp hv
    obtain ⟨event, -, hevent⟩ := (getElem?_of_collect hevents).2 i v hi
    cases v with
    | obj raw => exact ⟨raw, rfl⟩
    | null | bool _ | int _ | float _ | str _ | arr _ => cases hevent
  · intro hall
    induction inputs generalizing k with
    | nil => exact returns_ok []
    | cons v inputs ih =>
      obtain ⟨raw, rfl⟩ := hall v List.mem_cons_self
      obtain ⟨event, hevent⟩ := (returns_inputFrom (i := k)).mpr h.1
      obtain ⟨events, hevents⟩ := ih (k := k + 1) h.2 fun v hv =>
        hall v (List.mem_cons_of_mem _ hv)
      exact ⟨event :: events, by rw [collect_cons_ok hevent, hevents]; rfl⟩

/-- A loop of `int` over the checkpoint times. -/
theorem within_times {py : SidecarPython} (k : Nat) (times : List Json) :
    Within Raised.IsCrumbsFormat (collect (fun _ => intOf py) k times) ↔
      ∀ t ∈ times, IntReads py t := by
  induction times generalizing k with
  | nil => exact iff_of_true (within_ok []) fun t h => nomatch h
  | cons t times ih =>
    rw [within_collect_cons, within_intOf not_isCrumbsFormat_python, List.forall_mem_cons]
    refine and_congr_right fun h => ?_
    obtain ⟨n, hn⟩ := returns_intOf.mpr h
    simp [hn, ih]

theorem listFrom_eq_ok {entries : Entries} {key : String} {values : List Json} :
    listFrom entries key = .ok values ↔ field entries key (.arr []) = .arr values := by
  unfold listFrom
  cases field entries key (.arr []) <;> simp

theorem within_listFrom {entries : Entries} {key : String} :
    Within Raised.IsCrumbsFormat (listFrom entries key) := by
  unfold listFrom
  cases field entries key (.arr []) <;> simp [Raised.IsCrumbsFormat]

theorem within_crumbsChecked (b : ReplayBreadcrumbs) :
    Within Raised.IsCrumbsFormat b.checked := by
  unfold ReplayBreadcrumbs.checked
  refine within_bind.mpr ⟨within_require.mpr fun _ => ⟨_, rfl⟩, fun _ _ => ?_⟩
  exact within_bind.mpr ⟨within_require.mpr fun _ => ⟨_, rfl⟩, fun _ _ => within_pure _⟩

/-- The parser returns or raises a format error exactly on the objects that it handles. -/
theorem within_breadcrumbsFromEntries (py : SidecarPython) (entries : Entries) :
    Within Raised.IsCrumbsFormat (breadcrumbsFromEntries py entries) ↔
      CrumbsHandled py entries := by
  have hkeys : Within Raised.IsCrumbsFormat (requireKeys breadcrumbsKeys
      (fun key => .breadcrumbsFormat ("breadcrumbs payload missing '" ++ key ++ "'")) entries) := by
    unfold requireKeys
    split
    · exact within_error.mpr ⟨_, rfl⟩
    · exact within_ok ()
  unfold breadcrumbsFromEntries CrumbsHandled
  rw [within_bind, and_iff_right hkeys, ← returns_requireKeys]
  refine forall_congr_returns fun _ => ?_
  rw [within_bind, and_iff_right within_listFrom]
  simp only [listFrom_eq_ok]
  refine forall_congr' fun inputs => forall_congr' fun _ => ?_
  rw [within_bind, within_inputs]
  refine and_congr_right fun htimes => ?_
  rw [← returns_inputs (k := 0) htimes]
  refine forall_congr_returns fun _ => ?_
  rw [within_bind, and_iff_right within_listFrom]
  simp only [listFrom_eq_ok]
  refine forall_congr' fun times => forall_congr' fun _ => ?_
  rw [within_bind, within_times]
  refine and_congr_right fun hread => ?_
  obtain ⟨checkpoints, hcheckpoints⟩ :=
    (returns_collect (P := IntReads py) (fun _ _ => returns_intOf) 0 times).mpr hread
  simp only [hcheckpoints, Except.ok.injEq, forall_eq']
  rw [within_bind, within_crumbInt, ← returns_crumbInt]
  refine and_congr_right fun _ => forall_congr_returns fun _ => ?_
  rw [within_bind, within_finishFrom]
  constructor
  · rintro ⟨hfinish, h⟩
    obtain ⟨finish, hf⟩ := returns_finishFrom.mpr hfinish
    exact ⟨hfinish, within_crumbInt.mp (within_bind.mp (h finish hf)).1⟩
  · rintro ⟨hfinish, hcount⟩
    exact ⟨hfinish, fun finish _ => within_bind.mpr
      ⟨within_crumbInt.mpr hcount, fun _ _ => within_crumbsChecked _⟩⟩

/-- `in` answers for every key or raises a `TypeError` for every key. -/
theorem hasKey_cases (payload : Json) :
    (∃ f : String → Bool, ∀ key, hasKey key payload = .ok (f key)) ∨
      ∀ key, hasKey key payload = .error (.python .typeError) := by
  cases payload with
  | arr items => exact .inl ⟨_, fun key => rfl⟩
  | str s => exact .inl ⟨_, fun key => rfl⟩
  | null | bool _ | int _ | float _ | obj _ => exact .inr fun key => rfl

/-- What is no mapping is handled when one of the keys is not in it. -/
theorem within_breadcrumbsFromOther (payload : Json) (keys : List String) :
    Within Raised.IsCrumbsFormat (breadcrumbsFromOther payload keys) ↔
      ∃ key ∈ keys, hasKey key payload = .ok false := by
  induction keys with
  | nil =>
    apply iff_of_false
    · intro h
      obtain ⟨detail, hd⟩ := within_error.mp h
      cases hd
    · rintro ⟨key, h, -⟩
      cases h
  | cons key keys ih =>
    rw [breadcrumbsFromOther, within_bind]
    rcases hasKey_cases payload with ⟨f, hf⟩ | hraises
    · simp only [hf, within_ok, true_and, Except.ok.injEq, forall_eq', within_bind, List.mem_cons,
        exists_eq_or_imp] at ih ⊢
      cases hpresent : f key with
      | false =>
        refine iff_of_true ⟨within_require.mpr fun _ => ⟨_, rfl⟩, fun u hu => ?_⟩ (.inl rfl)
        exact absurd (require_eq_ok.mp hu) (by decide)
      | true =>
        rw [and_iff_right (within_require.mpr fun h => absurd rfl h)]
        refine (forall_congr_returns fun _ => ih).trans ?_
        rw [returns_require]
        constructor
        · intro h
          exact .inr (h rfl)
        · rintro (h | h) -
          · cases h
          · exact h
    · apply iff_of_false
      · intro h
        obtain ⟨detail, hd⟩ := h.1 _ (hraises key)
        cases hd
      · rintro ⟨key', -, h⟩
        rw [hraises] at h
        cases h

/-- The payloads that the breadcrumbs parser handles. -/
def PayloadHandled (py : SidecarPython) : Json → Prop
  | .obj entries => CrumbsHandled py entries
  | payload => ∃ key ∈ breadcrumbsKeys, hasKey key payload = .ok false

theorem within_breadcrumbsFromDict (py : SidecarPython) (payload : Json) :
    Within Raised.IsCrumbsFormat (breadcrumbsFromDict py payload) ↔ PayloadHandled py payload := by
  cases payload with
  | obj entries => exact within_breadcrumbsFromEntries py entries
  | null | bool _ | int _ | float _ | str _ | arr _ => exact within_breadcrumbsFromOther _ _

theorem noLoad_intOf (py : SidecarPython) (v : Json) : Within Raised.NoLoad (intOf py v) := by
  unfold intOf
  cases v.toInt py.toPython with
  | ok n => exact within_ok n
  | error e => exact within_error.mpr (by simp [Raised.NoLoad])

theorem noLoad_crumbInt (py : SidecarPython) (entries : Entries) (key : String) :
    Within Raised.NoLoad (crumbInt py entries key) := by
  unfold crumbInt
  split
  · simp [Raised.NoLoad]
  · split <;> simp [Raised.NoLoad]

theorem noLoad_timeFrom (py : SidecarPython) (raw : Entries) :
    Within Raised.NoLoad (timeFrom py raw) := by
  unfold timeFrom
  split
  · exact within_ok 0
  · exact noLoad_intOf py _

theorem noLoad_inputFrom (py : SidecarPython) (i : Nat) (v : Json) :
    Within Raised.NoLoad (inputFrom py i v) := by
  cases v with
  | obj raw => exact within_bind.mpr ⟨noLoad_timeFrom py raw, fun _ _ => within_pure _⟩
  | _ => simp [inputFrom, Raised.NoLoad]

theorem noLoad_listFrom (entries : Entries) (key : String) :
    Within Raised.NoLoad (listFrom entries key) := by
  unfold listFrom
  split <;> simp [Raised.NoLoad]

theorem noLoad_finishFrom (py : SidecarPython) (entries : Entries) :
    Within Raised.NoLoad (finishFrom py entries) := by
  have hmap : ∀ v, Within Raised.NoLoad ((intOf py v).map some) := by
    intro v
    cases hv : intOf py v with
    | ok n => exact within_ok _
    | error e => exact within_error.mpr (noLoad_intOf py v e hv)
  unfold finishFrom
  split
  · exact within_ok none
  · exact hmap _

theorem noLoad_breadcrumbsFromOther (payload : Json) (keys : List String) :
    Within Raised.NoLoad (breadcrumbsFromOther payload keys) := by
  induction keys with
  | nil => simp [breadcrumbsFromOther, Raised.NoLoad]
  | cons key keys ih =>
    refine within_bind.mpr ⟨?_, fun _ _ => within_bind.mpr
      ⟨within_require.mpr fun _ => by simp [Raised.NoLoad], fun _ _ => ih⟩⟩
    cases payload <;> simp [hasKey, Raised.NoLoad]

/-- The parser raises no load error; the loader makes one of its format errors. -/
theorem noLoad_breadcrumbsFromDict (py : SidecarPython) (payload : Json) :
    Within Raised.NoLoad (breadcrumbsFromDict py payload) := by
  cases payload with
  | obj entries =>
    unfold breadcrumbsFromDict breadcrumbsFromEntries
    refine within_bind.mpr ⟨noLoad_requireKeys fun key => by simp [Raised.NoLoad], fun _ _ => ?_⟩
    refine within_bind.mpr ⟨noLoad_listFrom _ _, fun _ _ => ?_⟩
    refine within_bind.mpr ⟨within_collect (noLoad_inputFrom py) 0 _, fun _ _ => ?_⟩
    refine within_bind.mpr ⟨noLoad_listFrom _ _, fun _ _ => ?_⟩
    refine within_bind.mpr ⟨within_collect (fun _ => noLoad_intOf py) 0 _, fun _ _ => ?_⟩
    refine within_bind.mpr ⟨noLoad_crumbInt _ _ _, fun _ _ => ?_⟩
    refine within_bind.mpr ⟨noLoad_finishFrom _ _, fun _ _ => ?_⟩
    refine within_bind.mpr ⟨noLoad_crumbInt _ _ _, fun _ _ => ?_⟩
    unfold ReplayBreadcrumbs.checked
    refine within_bind.mpr ⟨within_require.mpr fun _ => by simp [Raised.NoLoad], fun _ _ => ?_⟩
    exact within_bind.mpr
      ⟨within_require.mpr fun _ => by simp [Raised.NoLoad], fun _ _ => within_pure _⟩
  | null | bool _ | int _ | float _ | str _ | arr _ => exact noLoad_breadcrumbsFromOther _ _

/-- The contents of a breadcrumbs file that the pipeline handles. -/
def BreadcrumbsHandled (py : SidecarPython) : SidecarFile → Prop
  | .missing => True
  | .unreadable => False
  | .notUtf8 => False
  | .text content =>
    match py.loads content with
    | .error e => e = .jsonDecodeError
    | .ok payload => PayloadHandled py payload

/-- The loader returns or raises a `BreadcrumbsLoadError` exactly on the handled contents. -/
theorem within_loadBreadcrumbs (py : SidecarPython) (files : String → SidecarFile)
    (raw : String) : Within Raised.IsCrumbsLoad (loadBreadcrumbs py files raw) ↔
      BreadcrumbsHandled py (files (raw ++ ".breadcrumbs.json")) := by
  unfold loadBreadcrumbs
  dsimp only
  cases files (raw ++ ".breadcrumbs.json") with
  | missing => exact iff_of_true (within_error.mpr ⟨_, rfl⟩) trivial
  | unreadable =>
    refine iff_of_false (fun h => ?_) id
    obtain ⟨detail, hload⟩ := within_error.mp h
    cases hload
  | notUtf8 =>
    refine iff_of_false (fun h => ?_) id
    obtain ⟨detail, hload⟩ := within_error.mp h
    cases hload
  | text content =>
    simp only [readJson, BreadcrumbsHandled]
    cases py.loads content with
    | error e => cases e <;> simp [within_bind, Raised.IsCrumbsLoad]
    | ok payload =>
      rw [within_bind, and_iff_right (within_ok _)]
      simp only [Except.ok.injEq, forall_eq']
      rw [← within_breadcrumbsFromDict]
      cases hrun : breadcrumbsFromDict py payload with
      | ok b => exact iff_of_true (within_ok b) (within_ok b)
      | error e =>
        cases e with
        | breadcrumbsFormat detail =>
          exact iff_of_true (within_error.mpr ⟨_, rfl⟩) (within_error.mpr ⟨_, rfl⟩)
        | breadcrumbsLoad detail =>
          exact absurd rfl ((noLoad_breadcrumbsFromDict py payload _ hrun).2 detail)
        | _ =>
          refine iff_of_false (fun h => ?_) fun h => ?_
          · obtain ⟨detail, hload⟩ := within_error.mp h
            cases hload
          · obtain ⟨detail, hload⟩ := within_error.mp h
            cases hload

end TraxMania.Replay
