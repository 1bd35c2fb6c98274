import TraxMania.Generation.MapSpec

/-
  The translator that asks a language model for a map spec: the reply of the host, what each field
  of it is turned into, and the keyword translator behind it.
-/

namespace TraxMania.Generation.Llm

open Lib Spec Spec.MapSpec

/-! ## Python values -/

/-- The functions of the standard library that the reply goes through. -/
structure LlmPython extends TextPython where
  /-- `json.loads` of the bytes of a response. -/
  loadsBytes : List UInt8 → Except PyError Json
  /-- `float` of a text; `none` is a `ValueError`. -/
  floatOfText : String → Option JsonFloat
  /-- `str` of a value that is no text. -/
  repr : Json → String

/-- `str(v)`. -/
def toStr (py : LlmPython) : Json → String
  | .str s => s
  | v => py.repr v

/-- From here on an integer rounds to no float. -/
@[irreducible] def floatLimit : Nat := 2 ^ 1024 - 2 ^ 970

/-- `float(v)`. -/
def toFloat (py : LlmPython) : Json → Except PyError JsonFloat
  | .null => .error .typeError
  | .bool b => .ok (.finite (if b then 1 else 0))
  | .int n => if n.natAbs < floatLimit then .ok (.finite n) else .error .overflowError
  | .float x => .ok x
  | .str s =>
    match py.floatOfText s with
    | some x => .ok x
    | none => .error .valueError
  | .arr _ => .error .typeError
  | .obj _ => .error .typeError

/-- `bool(v)`. -/
def truthy : Json → Bool
  | .null => false
  | .bool b => b
  | .int n => n ≠ 0
  | .float (.finite x) => x ≠ 0
  | .float (.infinite _) => true
  | .float .nan => true
  | .str s => s ≠ ""
  | .arr items => !items.isEmpty
  | .obj entries => !entries.isEmpty

/-- `d.get(key, default)` of a dictionary. -/
def field (entries : List (String × Json)) (key : String) (default : Json) : Json :=
  (entries.lookup key).getD default

/-- `v.get(key, default)`; only a dictionary has the method. -/
def get (key : String) (default : Json) : Json → Except TranslateError Json
  | .obj entries => .ok (field entries key default)
  | _ => .error .attributeError

/-! ## The known bias keys -/

/-- A line of the catalogue. -/
structure CatalogueLine where
  type : Option String
  collection : Option String
  id : String

/-- `re.findall(r"[A-Z][a-z0-9]+", …)`; no match starts inside another one. -/
def camelTokens : List Char → List String
  | [] => []
  | c :: cs =>
    let tail := cs.takeWhile fun d => d.isLower || d.isDigit
    if c.isUpper ∧ tail ≠ [] then String.ofList (c :: tail) :: camelTokens cs else camelTokens cs

/-- `known_bias_keys`; there are no lines without a catalogue. -/
def knownBiasKeys (catalogue : List CatalogueLine) : List String :=
  (styleVocab.flatMap fun entry => entry.2.map Prod.fst) ++
    (catalogue.filter fun rec =>
      rec.type = some "block" ∧ rec.collection = some "Stadium2020").flatMap fun rec =>
        camelTokens rec.id.toList

theorem knownBiasKeys_ne_nil (catalogue : List CatalogueLine) : knownBiasKeys catalogue ≠ [] := by
  unfold knownBiasKeys
  exact List.append_ne_nil_of_left_ne_nil (by decide) _

/-! ## The chat -/

/-- What `urlopen` does with a request. -/
inductive Response where
  | body (data : List UInt8)
  /-- An `HTTPError`. -/
  | httpError (code : Nat)
  /-- Another `URLError`, a `TimeoutError` or an `OSError`. -/
  | unreachable

/-- `json.loads(resp.read()).get("message", {}).get("content", "")`. -/
def replyContent (py : LlmPython) (data : List UInt8) : Except TranslateError Json := do
  let body ← (py.loadsBytes data).mapError .python
  let message ← get "message" (.obj []) body
  get "content" (.str "") message

/-- `_ollama_chat`: the first response, or the second one after a server error. -/
def ollamaChat (py : LlmPython) (first second : Response) : Except TranslateError Json :=
  match first with
  | .body data => replyContent py data
  | .httpError code =>
    if 500 ≤ code then
      match second with
      | .body data => replyContent py data
      | .httpError _ => .error .host
      | .unreachable => .error .host
    else .error .host
  | .unreachable => .error .host

/-! ## Coercion of the fields -/

def minLength : Int := 10

def maxLength : Int := 400

def maxBias : ℚ := 20

/-- `max(lo, min(hi, n))`. -/
def clamp (lo hi n : Int) : Int := max lo (min hi n)

/-- A field that `int` reads and that is then clamped; the default stays where `int` raises
    `TypeError` or `ValueError`. -/
def coerceInt (py : LlmPython) (raw : List (String × Json)) (key : String) (default lo hi : Int) :
    Except PyError Int :=
  match (field raw key (.int default)).toInt py.toPython with
  | .ok n => .ok (clamp lo hi n)
  | .error .typeError => .ok default
  | .error .valueError => .ok default
  | .error .jsonDecodeError => .ok default
  | .error e => .error e

/-- The family of the reply if the clip walker can build with it, else the default. -/
def coerceFamily (py : LlmPython) (raw : List (String × Json)) : String :=
  let family := py.lower (py.strip (toStr py (field raw "family" (.str ""))))
  if family ∈ supported then family else ({} : MapSpec).family

/-- `max(0.0, min(MAX_BIAS, weight))`; `min` keeps its first argument beside a NaN. -/
def clampWeight : JsonFloat → ℚ
  | .finite x => max 0 (min maxBias x)
  | .infinite true => 0
  | .infinite false => maxBias
  | .nan => maxBias

/-- `(raw.get("bias") or {}).items()`. -/
def biasItems (raw : List (String × Json)) : Except TranslateError (List (String × Json)) :=
  let bias := field raw "bias" .null
  if truthy bias then
    match bias with
    | .obj entries => .ok entries
    | _ => .error .attributeError
  else .ok []

/-- One turn of the loop over the bias entries; an unknown key and a weight that `float` rejects
    are dropped. -/
def biasStep (py : LlmPython) (keys : List String) (bias : Dict String ℚ) (entry : String × Json) :
    Except PyError (Dict String ℚ) :=
  if keys ≠ [] ∧ entry.1 ∉ keys then .ok bias
  else
    match toFloat py entry.2 with
    | .ok weight => .ok (bias.upsert entry.1 fun _ => clampWeight weight)
    | .error .typeError => .ok bias
    | .error .valueError => .ok bias
    | .error .jsonDecodeError => .ok bias
    | .error e => .error e

/-- `_coerce`. -/
def coerce (py : LlmPython) (raw : List (String × Json)) (text : String) (seed : Int)
    (keys : List String) : Except TranslateError MapSpec := do
  let length ← (coerceInt py raw "length" ({} : MapSpec).length minLength maxLength).mapError .python
  let checkpointEvery ←
    (coerceInt py raw "checkpoint_every" ({} : MapSpec).checkpointEvery 0 length).mapError .python
  let items ← biasItems raw
  let bias ← (items.foldlM (biasStep py keys) Dict.empty).mapError .python
  let spec : MapSpec :=
    { family := coerceFamily py raw, length, checkpointEvery, seed, bias,
      description := py.strip text }
  match spec.validate with
  | .error e => .error (.spec e)
  | .ok () => return spec

/-! ## The translator -/

/-- `json.loads(content)`; what is no text is a `TypeError`. -/
def loadsContent (py : LlmPython) : Json → Except TranslateError Json
  | .str s => (py.loads s).mapError .python
  | _ => .error (.python .typeError)

/-- The `try` block: the spec that the model chose. -/
def modelSpec (py : LlmPython) (catalogue : List CatalogueLine) (first second : Response)
    (text : String) (seed : Int) : Except TranslateError MapSpec := do
  let content ← ollamaChat py first second
  let raw ← loadsContent py content
  match raw with
  | .obj entries => coerce py entries text seed (knownBiasKeys catalogue)
  | _ => .error (.python .valueError)

/-- What the two `except` clauses catch. -/
def caught : TranslateError → Bool
  | .spec _ => true
  | .python .valueError => true
  | .python .jsonDecodeError => true
  | .python _ => false
  | .attributeError => false
  | .host => true
  | .translationFailed _ => false

/-- `from_description_llm`. -/
def fromDescriptionLlm (py : LlmPython) (catalogue : List CatalogueLine) (first second : Response)
    (text : String) (seed : Int) (fallback : Bool) : Except TranslateError MapSpec :=
  match modelSpec py catalogue first second text seed with
  | .ok spec => .ok spec
  | .error e =>
    if caught e then
      if fallback then fromDescription py.toTextPython text seed
      else .error (.translationFailed text)
    else .error e

end TraxMania.Generation.Llm
