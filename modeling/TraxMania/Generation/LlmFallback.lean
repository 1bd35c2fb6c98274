import TraxMania.Generation.LlmSpec

/-
  Which replies of the model the translator survives: those for which it returns a valid spec, from
  the model or from the keywords.
-/

namespace TraxMania.Generation.Llm

open Lib Lib.Outcome Spec Spec.MapSpec

/-! ## What is promised -/

/-- The bounds of a spec that comes from the model. -/
structure FromModel (keys : List String) (s : MapSpec) : Prop where
  length_ge : 10 ≤ s.length
  length_le : s.length ≤ 400
  checkpointEvery_nonneg : 0 ≤ s.checkpointEvery
  checkpointEvery_le : s.checkpointEvery ≤ s.length
  family : s.family ∈ supported
  bias : ∀ kv ∈ s.bias.items, (0 ≤ kv.2 ∧ kv.2 ≤ 20) ∧ kv.1 ∈ keys

/-- With the keyword translator behind it, the translator returns a valid spec, and one that comes
    from the model keeps the bounds. -/
def StrictlyAdditive (py : LlmPython) (catalogue : List CatalogueLine) (first second : Response)
    (text : String) (seed : Int) : Prop :=
  (∃ s, fromDescriptionLlm py catalogue first second text seed true = .ok s ∧
    s.validate = .ok ()) ∧
  ∀ s, modelSpec py catalogue first second text seed = .ok s →
    FromModel (knownBiasKeys catalogue) s

/-- The `try` block ends well: with a spec in bounds, or with an exception that is caught. -/
def EndsWell (keys : List String) : Except TranslateError MapSpec → Prop
  | .ok s => s.validate = .ok () ∧ FromModel keys s
  | .error e => caught e = true

theorem strictlyAdditive_iff_endsWell {py : LlmPython} {catalogue : List CatalogueLine}
    {first second : Response} {text : String} {seed : Int} {keyword : MapSpec}
    (hkeyword : fromDescription py.toTextPython text seed = .ok keyword) :
    StrictlyAdditive py catalogue first second text seed ↔
      EndsWell (knownBiasKeys catalogue) (modelSpec py catalogue first second text seed) := by
  unfold StrictlyAdditive fromDescriptionLlm
  cases hmodel : modelSpec py catalogue first second text seed with
  | ok s =>
    constructor
    · rintro ⟨⟨s', hs', hvalid⟩, hbounds⟩
      obtain rfl := Except.ok.inj hs'
      exact ⟨hvalid, hbounds s rfl⟩
    · rintro ⟨hvalid, hbounds⟩
      refine ⟨⟨s, rfl, hvalid⟩, ?_⟩
      intro s' hs'
      obtain rfl := Except.ok.inj hs'
      exact hbounds
  | error e =>
    have hnone : ∀ s, (Except.error e : Except TranslateError MapSpec) = .ok s →
        FromModel (knownBiasKeys catalogue) s := by
      intro s hs
      cases hs
    cases hcaught : caught e with
    | true =>
      simp only [hcaught, if_true, EndsWell, iff_true]
      exact ⟨⟨keyword, hkeyword, validate_eq_ok.mpr (fromDescription_valid hkeyword)⟩, hnone⟩
    | false =>
      simp only [hcaught, EndsWell, Bool.false_eq_true, if_false, iff_false]
      rintro ⟨⟨s, hs, -⟩, -⟩
      cases hs

/-! ## Numbers -/

/-- `Infinity` or `-Infinity`. -/
def isInfinity : Json → Bool
  | .float (.infinite _) => true
  | _ => false

/-- `int(v)` raises `TypeError` or `ValueError`. -/
def IntRejects (py : LlmPython) (v : Json) : Prop :=
  v.toInt py.toPython = .error .typeError ∨ v.toInt py.toPython = .error .valueError

theorem toInt_infinity {py : LlmPython} {v : Json} (h : isInfinity v = true) :
    v.toInt py.toPython = .error .overflowError := by
  cases v with
  | float x =>
    cases x with
    | infinite negative => rfl
    | finite x => cases h
    | nan => cases h
  | null => cases h
  | bool b => cases h
  | int n => cases h
  | str s => cases h
  | arr items => cases h
  | obj entries => cases h

theorem toInt_finite {py : LlmPython} {v : Json} (h : isInfinity v = false) :
    (∃ n, v.toInt py.toPython = .ok n) ∨ IntRejects py v := by
  cases v with
  | null => exact .inr (.inl rfl)
  | bool b => exact .inl ⟨_, rfl⟩
  | int n => exact .inl ⟨n, rfl⟩
  | float x =>
    cases x with
    | finite x => exact .inl ⟨truncate x, rfl⟩
    | infinite negative => cases h
    | nan => exact .inr (.inr rfl)
  | str s =>
    unfold IntRejects
    simp only [Json.toInt]
    cases py.intOfText s with
    | some n => exact .inl ⟨n, rfl⟩
    | none => exact .inr (.inr rfl)
  | arr items => exact .inr (.inl rfl)
  | obj entries => exact .inr (.inl rfl)

section Fields

variable {py : LlmPython} {raw : List (String × Json)} {key : String} {default lo hi : Int}

theorem coerceInt_infinity (h : isInfinity (field raw key (.int default)) = true) :
    coerceInt py raw key default lo hi = .error .overflowError := by
  unfold coerceInt
  rw [toInt_infinity h]

theorem coerceInt_accepted {n : Int}
    (h : (field raw key (.int default)).toInt py.toPython = .ok n) :
    coerceInt py raw key default lo hi = .ok (clamp lo hi n) := by
  unfold coerceInt
  rw [h]

theorem coerceInt_rejected (h : IntRejects py (field raw key (.int default))) :
    coerceInt py raw key default lo hi = .ok default := by
  unfold coerceInt
  rcases h with h | h <;> rw [h]

theorem not_intRejects {v : Json} {n : Int} (h : v.toInt py.toPython = .ok n) :
    ¬ IntRejects py v := by
  unfold IntRejects
  rw [h]
  simp

/-- Clamped, or the default: what a field that is no infinity gives. -/
theorem coerceInt_finite (lo hi : Int) (h : isInfinity (field raw key (.int default)) = false) :
    (∃ n, (field raw key (.int default)).toInt py.toPython = .ok n ∧
      coerceInt py raw key default lo hi = .ok (clamp lo hi n)) ∨
    (IntRejects py (field raw key (.int default)) ∧
      coerceInt py raw key default lo hi = .ok default) := by
  rcases toInt_finite h with ⟨n, hn⟩ | hrej
  · exact .inl ⟨n, hn, coerceInt_accepted hn⟩
  · exact .inr ⟨hrej, coerceInt_rejected hrej⟩

theorem coerceInt_ok (lo hi : Int) (h : isInfinity (field raw key (.int default)) = false) :
    ∃ n, coerceInt py raw key default lo hi = .ok n := by
  rcases coerceInt_finite lo hi h with ⟨n, -, hc⟩ | ⟨-, hc⟩
  · exact ⟨_, hc⟩
  · exact ⟨_, hc⟩

/-- The length is in bounds, and it leaves room for the default cadence unless the reply asks for
    less. -/
theorem coerceInt_length {length : Int}
    (h : coerceInt py raw "length" 60 minLength maxLength = .ok length) :
    10 ≤ length ∧ length ≤ 400 ∧
      (15 ≤ length ↔ ∀ n, (field raw "length" (.int 60)).toInt py.toPython = .ok n → 15 ≤ n) := by
  cases hinf : isInfinity (field raw "length" (.int 60)) with
  | true =>
    rw [coerceInt_infinity hinf] at h
    cases h
  | false =>
    rcases coerceInt_finite _ _ hinf with ⟨n, hn, hc⟩ | ⟨hrej, hc⟩
    · rw [h] at hc
      obtain rfl := Except.ok.inj hc
      have hall : (∀ m, (field raw "length" (.int 60)).toInt py.toPython = .ok m → 15 ≤ m) ↔
          15 ≤ n := by
        rw [hn]
        simp
      rw [hall]
      unfold clamp minLength maxLength
      omega
    · rw [h] at hc
      obtain rfl := Except.ok.inj hc
      refine ⟨by omega, by omega, iff_of_true (by omega) ?_⟩
      intro n hn
      exact absurd hrej (not_intRejects hn)

/-- The cadence keeps to the length unless `int` rejects it: then it stays at its default. -/
theorem coerceInt_checkpoints {length checkpointEvery : Int} (hlength : 0 ≤ length)
    (h : coerceInt py raw "checkpoint_every" 15 0 length = .ok checkpointEvery) :
    0 ≤ checkpointEvery ∧ (checkpointEvery ≤ length ↔
      (IntRejects py (field raw "checkpoint_every" (.int 15)) → 15 ≤ length)) := by
  cases hinf : isInfinity (field raw "checkpoint_every" (.int 15)) with
  | true =>
    rw [coerceInt_infinity hinf] at h
    cases h
  | false =>
    rcases coerceInt_finite _ _ hinf with ⟨n, hn, hc⟩ | ⟨hrej, hc⟩
    · rw [h] at hc
      obtain rfl := Except.ok.inj hc
      unfold clamp
      refine ⟨by omega, iff_of_true (by omega) ?_⟩
      intro hrej
      exact absurd hrej (not_intRejects hn)
    · rw [h] at hc
      obtain rfl := Except.ok.inj hc
      refine ⟨by omega, ?_⟩
      exact ⟨fun hle _ => hle, fun hle => hle hrej⟩

end Fields

/-! ## Weights -/

/-- An integer that rounds to no float. -/
def overflows : Json → Bool
  | .int n => floatLimit ≤ n.natAbs
  | _ => false

theorem toFloat_overflows {py : LlmPython} {v : Json} (h : overflows v = true) :
    toFloat py v = .error .overflowError := by
  cases v with
  | int n =>
    have hle : floatLimit ≤ n.natAbs := of_decide_eq_true h
    simp only [toFloat, if_neg (Nat.not_lt.mpr hle)]
  | null => cases h
  | bool b => cases h
  | float x => cases h
  | str s => cases h
  | arr items => cases h
  | obj entries => cases h

theorem toFloat_fits (py : LlmPython) {v : Json} (h : overflows v = false) :
    (∃ x, toFloat py v = .ok x) ∨ toFloat py v = .error .typeError ∨
      toFloat py v = .error .valueError := by
  cases v with
  | null => exact .inr (.inl rfl)
  | bool b => exact .inl ⟨_, rfl⟩
  | int n =>
    have hlt : n.natAbs < floatLimit := Nat.not_le.mp (of_decide_eq_false h)
    exact .inl ⟨.finite n, by simp only [toFloat, if_pos hlt]⟩
  | float x => exact .inl ⟨x, rfl⟩
  | str s =>
    simp only [toFloat]
    cases py.floatOfText s with
    | some x => exact .inl ⟨x, rfl⟩
    | none => exact .inr (.inr rfl)
  | arr items => exact .inr (.inl rfl)
  | obj entries => exact .inr (.inl rfl)

theorem clampWeight_bounds (x : JsonFloat) : 0 ≤ clampWeight x ∧ clampWeight x ≤ 20 := by
  cases x with
  | finite x =>
    unfold clampWeight maxBias
    exact ⟨le_max_left _ _, max_le (by norm_num) (min_le_left _ _)⟩
  | infinite negative =>
    cases negative <;> simp [clampWeight, maxBias]
  | nan => simp [clampWeight, maxBias]

/-- Every weight is in bounds and every key is known. -/
def InBounds (keys : List String) (bias : Dict String ℚ) : Prop :=
  ∀ kv ∈ bias.items, (0 ≤ kv.2 ∧ kv.2 ≤ 20) ∧ kv.1 ∈ keys

section Bias

variable {py : LlmPython} {keys : List String}

theorem biasStep_overflows {bias : Dict String ℚ} {entry : String × Json}
    (hkey : entry.1 ∈ keys) (h : overflows entry.2 = true) :
    biasStep py keys bias entry = .error .overflowError := by
  unfold biasStep
  rw [if_neg (fun hunknown => hunknown.2 hkey), toFloat_overflows h]

/-- One turn keeps the weights in bounds. -/
theorem biasStep_fits (py : LlmPython) (hkeys : keys ≠ []) {bias : Dict String ℚ} {entry : String × Json}
    (hbias : InBounds keys bias) (h : entry.1 ∈ keys → overflows entry.2 = false) :
    ∃ bias', biasStep py keys bias entry = .ok bias' ∧ InBounds keys bias' := by
  unfold biasStep
  by_cases hkey : entry.1 ∈ keys
  · rw [if_neg (fun hunknown => hunknown.2 hkey)]
    rcases toFloat_fits py (h hkey) with ⟨x, hx⟩ | hx | hx
    · rw [hx]
      refine ⟨_, rfl, ?_⟩
      exact Dict.forall_upsert (P := fun k w => (0 ≤ w ∧ w ≤ 20) ∧ k ∈ keys) hbias
        fun _ _ => ⟨clampWeight_bounds x, hkey⟩
    · rw [hx]
      exact ⟨bias, rfl, hbias⟩
    · rw [hx]
      exact ⟨bias, rfl, hbias⟩
  · rw [if_pos ⟨hkeys, hkey⟩]
    exact ⟨bias, rfl, hbias⟩

/-- The loop runs through, with all weights in bounds, where no known key has an integer that
    overflows. -/
theorem biasLoop_fits (py : LlmPython) (hkeys : keys ≠ []) {items : List (String × Json)} {bias : Dict String ℚ}
    (hbias : InBounds keys bias) (h : ∀ entry ∈ items, entry.1 ∈ keys → overflows entry.2 = false) :
    ∃ bias', items.foldlM (biasStep py keys) bias = .ok bias' ∧ InBounds keys bias' := by
  induction items generalizing bias with
  | nil => exact ⟨bias, rfl, hbias⟩
  | cons entry items ih =>
    obtain ⟨bias₁, hstep, hbias₁⟩ := biasStep_fits py hkeys hbias (h entry (by simp))
    obtain ⟨bias₂, hrun, hbias₂⟩ := ih hbias₁ fun e he => h e (List.mem_cons_of_mem _ he)
    refine ⟨bias₂, ?_, hbias₂⟩
    rw [List.foldlM_cons, hstep, ok_bind, hrun]

/-- The loop ends at the first known key whose integer overflows. -/
theorem biasLoop_overflows (hkeys : keys ≠ []) {items : List (String × Json)}
    {bias : Dict String ℚ} (hbias : InBounds keys bias)
    (h : ¬ ∀ entry ∈ items, entry.1 ∈ keys → overflows entry.2 = false) :
    items.foldlM (biasStep py keys) bias = .error .overflowError := by
  induction items generalizing bias with
  | nil => exact absurd (by simp) h
  | cons entry items ih =>
    rw [List.foldlM_cons]
    by_cases hentry : entry.1 ∈ keys → overflows entry.2 = false
    · obtain ⟨bias₁, hstep, hbias₁⟩ := biasStep_fits py hkeys hbias hentry
      rw [hstep, ok_bind]
      apply ih hbias₁
      intro hrest
      apply h
      intro e he
      rcases List.mem_cons.mp he with rfl | he
      · exact hentry
      · exact hrest e he
    · rw [Classical.not_imp, Bool.not_eq_false] at hentry
      rw [biasStep_overflows hentry.1 hentry.2]
      rfl

end Bias

/-! ## Replies -/

/-- The bias of the reply is falsy, or a dictionary without an integer that overflows at a known
    key. -/
def BiasReadable (keys : List String) (v : Json) : Prop :=
  truthy v = true → ∃ entries, v = .obj entries ∧
    ∀ entry ∈ entries, entry.1 ∈ keys → overflows entry.2 = false

/-- The fields that the translator copes with. A cadence that `int` rejects stays at 15, which needs
    a length of 15. -/
structure ReadableFields (py : LlmPython) (keys : List String) (raw : List (String × Json)) :
    Prop where
  length : isInfinity (field raw "length" (.int 60)) = false
  checkpointEvery : isInfinity (field raw "checkpoint_every" (.int 15)) = false
  cadence : IntRejects py (field raw "checkpoint_every" (.int 15)) →
    ∀ n, (field raw "length" (.int 60)).toInt py.toPython = .ok n → 15 ≤ n
  bias : BiasReadable keys (field raw "bias" .null)

/-- `json.loads` takes the text, or raises what is caught; a dictionary has readable fields. -/
def ReadableText (py : LlmPython) (keys : List String) (s : String) : Prop :=
  match py.loads s with
  | .ok (.obj raw) => ReadableFields py keys raw
  | .ok _ => True
  | .error e => e = .valueError ∨ e = .jsonDecodeError

/-- The same for the response: a dictionary, its message a dictionary, its content a text. -/
def ReadableReply (py : LlmPython) (keys : List String) (data : List UInt8) : Prop :=
  match py.loadsBytes data with
  | .ok v =>
    ∃ body, v = .obj body ∧ ∃ message, field body "message" (.obj []) = .obj message ∧
      ∃ s, field message "content" (.str "") = .str s ∧ ReadableText py keys s
  | .error e => e = .valueError ∨ e = .jsonDecodeError

/-- The response that is read: the first one, or the second one after a server error. -/
def responseRead : Response → Response → Option (List UInt8)
  | .body data, _ => some data
  | .httpError code, .body data => if 500 ≤ code then some data else none
  | .httpError _, .httpError _ => none
  | .httpError _, .unreachable => none
  | .unreachable, _ => none

/-- Every response that is read is readable. -/
def ReadableChat (py : LlmPython) (keys : List String) (first second : Response) : Prop :=
  ∀ data, responseRead first second = some data → ReadableReply py keys data

theorem caught_python {e : PyError} :
    caught (.python e) = true ↔ e = .valueError ∨ e = .jsonDecodeError := by
  cases e <;> simp [caught]

section Ends

variable {py : LlmPython} {keys : List String} {text : String} {seed : Int}

theorem biasItems_eq (keys : List String) (raw : List (String × Json)) :
    biasItems raw = .error .attributeError ∧ ¬ BiasReadable keys (field raw "bias" .null) ∨
      ∃ items, biasItems raw = .ok items ∧ (BiasReadable keys (field raw "bias" .null) ↔
        ∀ entry ∈ items, entry.1 ∈ keys → overflows entry.2 = false) := by
  unfold biasItems BiasReadable
  dsimp only
  cases htruthy : truthy (field raw "bias" .null) with
  | false => exact .inr ⟨[], by simp, by simp⟩
  | true =>
    cases hbias : field raw "bias" .null with
    | obj entries => exact .inr ⟨entries, rfl, by simp⟩
    | null => exact .inl ⟨rfl, by simp⟩
    | bool b => exact .inl ⟨rfl, by simp⟩
    | int n => exact .inl ⟨rfl, by simp⟩
    | float x => exact .inl ⟨rfl, by simp⟩
    | str s => exact .inl ⟨rfl, by simp⟩
    | arr items => exact .inl ⟨rfl, by simp⟩

theorem coerceFamily_supported (py : LlmPython) (raw : List (String × Json)) :
    coerceFamily py raw ∈ supported := by
  unfold coerceFamily
  dsimp only
  split
  · next h => exact h
  · decide

/-- A spec of a supported family, with a length, a cadence and weights in bounds, passes. -/
theorem valid_of_fields {s : MapSpec} (hwalker : s.walker = "clip") (hfamilies : s.families = [])
    (hfootprint : s.maxFootprint = 3) (hfamily : s.family ∈ supported) (hlength : 10 ≤ s.length)
    (hcheckpoints : 0 ≤ s.checkpointEvery) (hbias : InBounds keys s.bias) : s.Valid := by
  have hlist : s.familyList = [s.family] := by
    unfold familyList
    rw [if_neg (not_not.mpr hfamilies)]
  refine ⟨.inl hwalker, ?_, ?_, by omega, hcheckpoints, by omega, fun kv hkv => (hbias kv hkv).1.1⟩
  · rw [hlist]
    intro n hn
    obtain rfl := List.mem_singleton.mp hn
    exact isFamily_of_supported hfamily
  · intro _
    rw [hlist]
    refine ⟨?_, by simp⟩
    intro n hn
    obtain rfl := List.mem_singleton.mp hn
    exact unsupportedReason_of_supported hfamily

/-- The spec that is put together from the coerced fields. -/
def coercedSpec (py : LlmPython) (raw : List (String × Json)) (text : String) (seed : Int)
    (length checkpointEvery : Int) (bias : Dict String ℚ) : MapSpec :=
  { family := coerceFamily py raw, length, checkpointEvery, seed, bias,
    description := py.strip text }

/-- What is left of the coercion after the two numbers. -/
theorem coerce_numbers {raw : List (String × Json)} {length checkpointEvery : Int}
    (hlength : coerceInt py raw "length" 60 minLength maxLength = .ok length)
    (hcheckpoints : coerceInt py raw "checkpoint_every" 15 0 length = .ok checkpointEvery) :
    coerce py raw text seed keys = (do
      let items ← biasItems raw
      let bias ← (items.foldlM (biasStep py keys) Dict.empty).mapError .python
      match (coercedSpec py raw text seed length checkpointEvery bias).validate with
      | .error e => .error (.spec e)
      | .ok () => return coercedSpec py raw text seed length checkpointEvery bias) := by
  unfold coerce
  rw [hlength]
  simp only [Except.mapError, ok_bind]
  rw [hcheckpoints]
  rfl

theorem coerce_length_infinity {raw : List (String × Json)}
    (h : isInfinity (field raw "length" (.int 60)) = true) :
    coerce py raw text seed keys = .error (.python .overflowError) := by
  unfold coerce
  rw [coerceInt_infinity h]
  rfl

theorem coerce_checkpoints_infinity {raw : List (String × Json)} {length : Int}
    (hlength : coerceInt py raw "length" 60 minLength maxLength = .ok length)
    (h : isInfinity (field raw "checkpoint_every" (.int 15)) = true) :
    coerce py raw text seed keys = .error (.python .overflowError) := by
  unfold coerce
  rw [hlength]
  simp only [Except.mapError, ok_bind]
  rw [coerceInt_infinity h]
  rfl

/-- With weights in bounds, the coercion ends well if and only if the cadence keeps to the length. -/
theorem coercedSpec_endsWell {raw : List (String × Json)} {length checkpointEvery : Int}
    {bias : Dict String ℚ} (hlength : 10 ≤ length ∧ length ≤ 400) (hcheckpoints : 0 ≤ checkpointEvery)
    (hbias : InBounds keys bias) :
    EndsWell keys
      (match (coercedSpec py raw text seed length checkpointEvery bias).validate with
      | .error e => .error (.spec e)
      | .ok () => .ok (coercedSpec py raw text seed length checkpointEvery bias)) ↔
    checkpointEvery ≤ length := by
  have hfamily := coerceFamily_supported py raw
  have hvalid : (coercedSpec py raw text seed length checkpointEvery bias).validate = .ok () :=
    (valid_of_fields rfl rfl rfl hfamily hlength.1 hcheckpoints hbias).validate
  rw [hvalid]
  constructor
  · rintro ⟨-, hmodel⟩
    exact hmodel.checkpointEvery_le
  · intro hle
    exact ⟨hvalid, hlength.1, hlength.2, hcheckpoints, hle, hfamily, hbias⟩

/-- Once the two numbers are read, the coercion ends well if and only if the bias is readable and the
    cadence keeps to the length. -/
theorem coerce_numbers_endsWell (hkeys : keys ≠ []) {raw : List (String × Json)}
    {length checkpointEvery : Int}
    (hlength : coerceInt py raw "length" 60 minLength maxLength = .ok length)
    (hcheckpoints : coerceInt py raw "checkpoint_every" 15 0 length = .ok checkpointEvery) :
    EndsWell keys (coerce py raw text seed keys) ↔
      BiasReadable keys (field raw "bias" .null) ∧ checkpointEvery ≤ length := by
  obtain ⟨hge, hle, -⟩ := coerceInt_length hlength
  have hnonneg := (coerceInt_checkpoints (by omega) hcheckpoints).1
  have hempty : InBounds keys Dict.empty := by
    intro kv hkv
    cases hkv
  rw [coerce_numbers hlength hcheckpoints]
  rcases biasItems_eq keys raw with ⟨herr, hbias⟩ | ⟨items, hok, hbias⟩
  · rw [herr]
    refine iff_of_false (by simp [EndsWell, caught, bind, Except.bind]) ?_
    exact fun h => hbias h.1
  · rw [hok, ok_bind, hbias]
    by_cases hfits : ∀ entry ∈ items, entry.1 ∈ keys → overflows entry.2 = false
    · obtain ⟨bias, hrun, hbounds⟩ := biasLoop_fits py hkeys hempty hfits
      rw [hrun]
      refine (coercedSpec_endsWell ⟨hge, hle⟩ hnonneg hbounds).trans ?_
      exact (and_iff_right hfits).symm
    · rw [biasLoop_overflows hkeys hempty hfits]
      refine iff_of_false (by simp [EndsWell, caught, Except.mapError, bind, Except.bind]) ?_
      exact fun h => hfits h.1

theorem coerce_endsWell (hkeys : keys ≠ []) {raw : List (String × Json)} :
    EndsWell keys (coerce py raw text seed keys) ↔ ReadableFields py keys raw := by
  have hoverflow : ¬ EndsWell keys (.error (.python .overflowError)) := by simp [EndsWell, caught]
  cases hinf : isInfinity (field raw "length" (.int 60)) with
  | true =>
    rw [coerce_length_infinity hinf]
    refine iff_of_false hoverflow fun h => ?_
    rw [h.length] at hinf
    cases hinf
  | false =>
    obtain ⟨length, hlength⟩ := coerceInt_ok minLength maxLength hinf
    cases hinf' : isInfinity (field raw "checkpoint_every" (.int 15)) with
    | true =>
      rw [coerce_checkpoints_infinity hlength hinf']
      refine iff_of_false hoverflow fun h => ?_
      rw [h.checkpointEvery] at hinf'
      cases hinf'
    | false =>
      obtain ⟨cp, hcp⟩ := coerceInt_ok 0 length hinf'
      obtain ⟨hge, -, hroom⟩ := coerceInt_length hlength
      rw [coerce_numbers_endsWell hkeys hlength hcp, (coerceInt_checkpoints (by omega) hcp).2,
        hroom]
      constructor
      · intro ⟨hbias, hcadence⟩
        exact ⟨hinf, hinf', hcadence, hbias⟩
      · intro h
        exact ⟨h.bias, h.cadence⟩

/-! ## The whole reply -/

/-- From the content on, as the `try` block goes on. -/
def contentSpec (py : LlmPython) (keys : List String) (text : String) (seed : Int) (content : Json) :
    Except TranslateError MapSpec := do
  let raw ← loadsContent py content
  match raw with
  | .obj entries => coerce py entries text seed keys
  | _ => .error (.python .valueError)

theorem contentSpec_endsWell (hkeys : keys ≠ []) {s : String} :
    EndsWell keys (contentSpec py keys text seed (.str s)) ↔ ReadableText py keys s := by
  unfold contentSpec ReadableText
  simp only [loadsContent]
  cases py.loads s with
  | error e => exact caught_python
  | ok raw =>
    simp only [Except.mapError, ok_bind]
    cases raw with
    | obj entries => exact coerce_endsWell hkeys
    | null => exact iff_of_true rfl trivial
    | bool b => exact iff_of_true rfl trivial
    | int n => exact iff_of_true rfl trivial
    | float x => exact iff_of_true rfl trivial
    | str s => exact iff_of_true rfl trivial
    | arr items => exact iff_of_true rfl trivial

/-- Content that is no text is a `TypeError`. -/
theorem contentSpec_endsWell_iff (hkeys : keys ≠ []) {content : Json} :
    EndsWell keys (contentSpec py keys text seed content) ↔
      ∃ s, content = .str s ∧ ReadableText py keys s := by
  by_cases htext : ∃ s, content = .str s
  · obtain ⟨s, rfl⟩ := htext
    rw [contentSpec_endsWell hkeys]
    simp
  · have herror : contentSpec py keys text seed content = .error (.python .typeError) := by
      unfold contentSpec
      cases content with
      | str s => exact absurd ⟨s, rfl⟩ htext
      | null => rfl
      | bool b => rfl
      | int n => rfl
      | float x => rfl
      | arr items => rfl
      | obj entries => rfl
    rw [herror]
    refine iff_of_false (by simp [EndsWell, caught]) ?_
    rintro ⟨s, hs, -⟩
    exact htext ⟨s, hs⟩

/-- Only a dictionary has the method `get`. -/
theorem get_endsWell {v default : Json} {key : String} {f : Json → Except TranslateError MapSpec} :
    EndsWell keys (get key default v >>= f) ↔
      ∃ entries, v = .obj entries ∧ EndsWell keys (f (field entries key default)) := by
  have hattribute : ¬ EndsWell keys (.error .attributeError) := by simp [EndsWell, caught]
  cases v with
  | obj entries => simp [get, ok_bind]
  | null => exact iff_of_false hattribute (by simp)
  | bool b => exact iff_of_false hattribute (by simp)
  | int n => exact iff_of_false hattribute (by simp)
  | float x => exact iff_of_false hattribute (by simp)
  | str s => exact iff_of_false hattribute (by simp)
  | arr items => exact iff_of_false hattribute (by simp)

theorem replySpec_endsWell (hkeys : keys ≠ []) {data : List UInt8} :
    EndsWell keys (replyContent py data >>= contentSpec py keys text seed) ↔
      ReadableReply py keys data := by
  unfold replyContent ReadableReply
  cases py.loadsBytes data with
  | error e => exact caught_python
  | ok v =>
    simp only [Except.mapError, ok_bind, bind_assoc]
    rw [get_endsWell]
    simp only [get_endsWell, contentSpec_endsWell_iff hkeys]

theorem modelSpec_endsWell {catalogue : List CatalogueLine} {first second : Response} :
    EndsWell (knownBiasKeys catalogue) (modelSpec py catalogue first second text seed) ↔
      ReadableChat py (knownBiasKeys catalogue) first second := by
  have hkeys := knownBiasKeys_ne_nil catalogue
  have hread : ∀ data,
      EndsWell (knownBiasKeys catalogue)
        (replyContent py data >>= contentSpec py (knownBiasKeys catalogue) text seed) ↔
      ∀ d, some data = some d → ReadableReply py (knownBiasKeys catalogue) d := by
    intro data
    rw [replySpec_endsWell hkeys]
    simp
  have hmodel : modelSpec py catalogue first second text seed =
      ollamaChat py first second >>= contentSpec py (knownBiasKeys catalogue) text seed := rfl
  have hhost : EndsWell (knownBiasKeys catalogue) (.error .host) := rfl
  rw [hmodel]
  unfold ReadableChat
  cases first with
  | body data => exact hread data
  | unreachable => exact iff_of_true hhost (by simp [responseRead])
  | httpError code =>
    by_cases hcode : 500 ≤ code
    · simp only [ollamaChat, if_pos hcode]
      cases second with
      | body data =>
        simp only [responseRead, if_pos hcode]
        exact hread data
      | httpError code' => exact iff_of_true hhost (by simp [responseRead])
      | unreachable => exact iff_of_true hhost (by simp [responseRead])
    · simp only [ollamaChat, if_neg hcode]
      refine iff_of_true hhost ?_
      cases second with
      | body data => simp [responseRead, hcode]
      | httpError code' => simp [responseRead]
      | unreachable => simp [responseRead]

end Ends

/-- Where the keywords give a spec, the translator is strictly additive exactly for the readable
    replies. -/
theorem strictlyAdditive_iff_readableChat {py : LlmPython} {catalogue : List CatalogueLine}
    {first second : Response} {text : String} {seed : Int} {keyword : MapSpec}
    (hkeyword : fromDescription py.toTextPython text seed = .ok keyword) :
    StrictlyAdditive py catalogue first second text seed ↔
      ReadableChat py (knownBiasKeys catalogue) first second := by
  rw [strictlyAdditive_iff_endsWell hkeyword]
  exact modelSpec_endsWell

/-! ## Two replies -/

/-- A request for 45 blocks with a checkpoint at every ninth. -/
def plainContent : String := "\x7b\"length\": 45, \"checkpoint_every\": 9\x7d"

def infiniteContent : String := "\x7b\"length\": Infinity\x7d"

/-- The response of the host around a content. -/
def responseOf (escaped : String) : List UInt8 :=
  ("\x7b\"message\": \x7b\"content\": \"" ++ escaped ++ "\"\x7d\x7d").toUTF8.toList

def plainResponse : List UInt8 :=
  responseOf "\x7b\\\"length\\\": 45, \\\"checkpoint_every\\\": 9\x7d"

def infiniteResponse : List UInt8 := responseOf "\x7b\\\"length\\\": Infinity\x7d"

def messageOf (content : String) : Json := .obj [("message", .obj [("content", .str content)])]

/-- Python on the two replies and on ASCII texts. -/
def asciiPython : LlmPython where
  loads s :=
    if s = plainContent then .ok (.obj [("length", .int 45), ("checkpoint_every", .int 9)])
    else if s = infiniteContent then .ok (.obj [("length", .float (.infinite false))])
    else .error .jsonDecodeError
  loadsBytes data :=
    if data = plainResponse then .ok (messageOf plainContent)
    else if data = infiniteResponse then .ok (messageOf infiniteContent)
    else .error .jsonDecodeError
  intOfText s := s.toInt?
  floatOfText _ := none
  digest _ := 0
  strip s := s.trimAscii.toString
  lower := String.toLower
  isDigit := Char.isDigit
  isSpace := Char.isWhitespace
  repr _ := ""

theorem icyMap_keyword : ∃ s, fromDescription asciiPython.toTextPython "icy map" 1 = .ok s := by
  have hok : (fromDescription asciiPython.toTextPython "icy map" 1).isOk = true := by
    decide +kernel
  cases h : fromDescription asciiPython.toTextPython "icy map" 1 with
  | ok s => exact ⟨s, rfl⟩
  | error e =>
    rw [h] at hok
    cases hok

theorem plainContent_ne : plainContent ≠ infiniteContent := by
  decide +kernel

theorem plainResponse_ne : plainResponse ≠ infiniteResponse := by
  decide +kernel

theorem readableReply_plain (keys : List String) :
    ReadableReply asciiPython keys plainResponse := by
  have hbytes : asciiPython.loadsBytes plainResponse = .ok (messageOf plainContent) := by
    simp only [asciiPython, if_true]
  have hloads : asciiPython.loads plainContent =
      .ok (.obj [("length", .int 45), ("checkpoint_every", .int 9)]) := by
    simp only [asciiPython, if_true]
  unfold ReadableReply
  rw [hbytes]
  refine ⟨_, rfl, _, rfl, plainContent, rfl, ?_⟩
  unfold ReadableText
  rw [hloads]
  refine ⟨rfl, rfl, ?_, ?_⟩
  · intro _ n hn
    obtain rfl : 45 = n := Except.ok.inj hn
    decide
  · intro htruthy
    cases htruthy

theorem strictlyAdditive_plain :
    StrictlyAdditive asciiPython [] (.body plainResponse) .unreachable "icy map" 1 := by
  obtain ⟨keyword, hkeyword⟩ := icyMap_keyword
  apply (strictlyAdditive_iff_readableChat hkeyword).mpr
  intro data hdata
  obtain rfl := Option.some.inj hdata
  exact readableReply_plain _

/-- `int` of an infinity raises an exception that nothing catches. -/
theorem infiniteLength_raises :
    (∃ keyword, fromDescription asciiPython.toTextPython "icy map" 1 = .ok keyword) ∧
    fromDescriptionLlm asciiPython [] (.body infiniteResponse) .unreachable "icy map" 1 true =
      .error (.python .overflowError) := by
  refine ⟨icyMap_keyword, ?_⟩
  have hbytes : asciiPython.loadsBytes infiniteResponse = .ok (messageOf infiniteContent) := by
    simp only [asciiPython, if_neg plainResponse_ne.symm, if_true]
  have hloads : asciiPython.loads infiniteContent =
      .ok (.obj [("length", .float (.infinite false))]) := by
    simp only [asciiPython, if_neg plainContent_ne.symm, if_true]
  have hmodel : modelSpec asciiPython [] (.body infiniteResponse) .unreachable "icy map" 1 =
      .error (.python .overflowError) := by
    unfold modelSpec
    simp only [ollamaChat, replyContent, hbytes, Except.mapError, ok_bind]
    simp only [messageOf, get, field, List.lookup_cons_self, Option.getD_some, ok_bind,
      loadsContent, hloads, Except.mapError]
    exact coerce_length_infinity rfl
  unfold fromDescriptionLlm
  rw [hmodel]
  rfl

end TraxMania.Generation.Llm
