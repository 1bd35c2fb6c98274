import TraxMania.Generation.PathCells
import TraxMania.Lib.Dict

/-
  The map spec that a description is turned into, its validation, and the translator by keywords.
-/

namespace TraxMania.Generation.Spec

open Lib Lib.Outcome

/-! ## Surface families -/

structure Family where
  name : String
  /-- The reason why the clip walker cannot build with it. -/
  unsupported : Option String := none

/-- `_PLATFORM_REASON`. -/
def platformReason : String :=
  "platform gates use an isolated clip (PlatformFCSmallRacing) with no bridge to surface blocks, " ++
  "so clip matching cannot chain them. Real platform maps do it anyway — build them with the " ++
  "grammar walker (resolve_pool) instead"

/-- `_OPEN_REASON`. -/
def openReason : String :=
  "open roads ship checkpoints but no Start or Finish, so they cannot form a route alone; add " ++
  "them to another family's pool with resolve_pool"

/-- `FAMILIES`. -/
def families : List Family :=
  [⟨"tech", none⟩, ⟨"dirt", none⟩, ⟨"bump", none⟩, ⟨"ice", none⟩, ⟨"water", none⟩,
    ⟨"platform-tech", platformReason⟩, ⟨"platform-dirt", platformReason⟩,
    ⟨"platform-ice", platformReason⟩, ⟨"platform-grass", platformReason⟩,
    ⟨"platform-plastic", platformReason⟩, ⟨"open-tech", openReason⟩, ⟨"open-dirt", openReason⟩]

/-- `SUPPORTED`. -/
def supported : List String :=
  (families.filter fun f => f.unsupported.isNone).map Family.name

/-- `n in FAMILIES`. -/
def isFamily (name : String) : Bool := families.any fun f => f.name = name

/-- `FAMILIES[n].unsupported`. -/
def unsupportedReason (name : String) : Option String :=
  (families.find? fun f => f.name = name).bind Family.unsupported

theorem isFamily_of_supported {name : String} (h : name ∈ supported) : isFamily name = true := by
  have hall : ∀ n ∈ supported, isFamily n = true := by decide
  exact hall name h

theorem unsupportedReason_of_supported {name : String} (h : name ∈ supported) :
    unsupportedReason name = none := by
  have hall : ∀ n ∈ supported, unsupportedReason n = none := by decide
  exact hall name h

/-! ## Vocabulary -/

/-- `STYLE_VOCAB`: what each style word does to the weights of the block groups. -/
def styleVocab : List (String × List (String × ℚ)) :=
  [("flowy", [("Curve2", 4), ("Curve3", 4), ("Curve1", 0.3), ("Chicane", 0.2)]),
    ("smooth", [("Curve2", 4), ("Curve3", 4), ("Curve1", 0.3), ("Chicane", 0.2)]),
    ("technical", [("Curve1", 3), ("Chicane", 3), ("Curve3", 0.4)]),
    ("tech", [("Curve1", 3), ("Chicane", 3), ("Curve3", 0.4)]),
    ("twisty", [("Curve1", 4), ("Chicane", 3)]),
    ("tight", [("Curve1", 4), ("Chicane", 2), ("Curve3", 0.2)]),
    ("fast", [("Straight", 3), ("Curve3", 2), ("SpecialTurbo", 2.5), ("Chicane", 0.3)]),
    ("fullspeed",
      [("Straight", 4), ("Curve3", 2.5), ("SpecialTurbo", 3), ("Curve1", 0.2), ("Chicane", 0.1)]),
    ("slow", [("Curve1", 2), ("Chicane", 2), ("SpecialTurbo", 0)]),
    ("hilly", [("Slope", 4)]),
    ("flat", [("Slope", 0)]),
    ("climb", [("Slope", 4)]),
    ("boost", [("SpecialBoost", 4), ("SpecialTurbo", 3)]),
    ("turbo", [("SpecialTurbo", 4), ("SpecialBoost", 3)]),
    ("nasty", [("PenaltyIce", 3), ("PenaltyDirt", 3), ("SpecialFragile", 3)]),
    ("tricky", [("PenaltyIce", 2.5), ("SpecialFragile", 2.5), ("SpecialReset", 2)]),
    ("clean", [("Penalty", 0), ("SpecialFragile", 0), ("SpecialNoEngine", 0), ("SpecialReset", 0)]),
    ("wavy", [("Wave", 4)])]

/-- `FAMILY_WORDS`. -/
def familyWords : List (String × String) :=
  [("tech", "tech"), ("concrete", "tech"), ("road", "tech"), ("asphalt", "tech"),
    ("dirt", "dirt"), ("mud", "dirt"), ("rally", "dirt"),
    ("bump", "bump"), ("bumpy", "bump"), ("sausage", "bump"),
    ("ice", "ice"), ("icy", "ice"), ("slippery", "ice"),
    ("water", "water"), ("wet", "water"),
    ("plastic", "platform-plastic"), ("bouncy", "platform-plastic"),
    ("platform", "platform-tech"), ("stunt", "platform-tech"),
    ("grass", "platform-grass")]

/-- `LENGTH_WORDS`. -/
def lengthWords : List (String × Int) :=
  [("tiny", 20), ("short", 30), ("medium", 60), ("long", 100), ("huge", 150)]

/-! ## The spec -/

/-- `MapSpec`, with its defaults. -/
structure MapSpec where
  family : String := "tech"
  families : List String := []
  walker : String := "clip"
  length : Int := 60
  checkpointEvery : Int := 15
  seed : Int := 1
  maxFootprint : Int := 3
  bias : Dict String ℚ := Dict.empty
  description : String := ""

/-- `SpecError`, a subclass of `ValueError`. -/
inductive SpecError where
  | unknownWalker (walker : String)
  | unknownFamilies (names : List String)
  /-- A `FamilyError`, which is a `ValueError` too. -/
  | notForClips (name reason : String)
  | severalFamilies (names : List String)
  | tooShort (length : Int)
  | negativeCheckpoints
  | noFootprint
  | negativeBias (needle : String)
deriving DecidableEq

namespace MapSpec

/-- `family_list`. -/
def familyList (s : MapSpec) : List String :=
  if s.families ≠ [] then s.families else [s.family]

/-- What the clip walker cannot do with these families. -/
def clipError (names : List String) : Option SpecError :=
  match names.filter fun n => (unsupportedReason n).isSome with
  | name :: _ => some (.notForClips name ((unsupportedReason name).getD ""))
  | [] => if 1 < names.length then some (.severalFamilies names) else none

/-- `validate`. -/
def validate (s : MapSpec) : Except SpecError Unit :=
  let names := s.familyList
  let unknown := names.filter fun n => !isFamily n
  if s.walker ≠ "clip" ∧ s.walker ≠ "grammar" then .error (.unknownWalker s.walker)
  else if unknown ≠ [] then .error (.unknownFamilies unknown)
  else
    match if s.walker = "clip" then clipError names else none with
    | some e => .error e
    | none =>
      if s.length < 3 then .error (.tooShort s.length)
      else if s.checkpointEvery < 0 then .error .negativeCheckpoints
      else if s.maxFootprint < 1 then .error .noFootprint
      else
        match s.bias.items.find? fun kv => kv.2 < 0 with
        | some kv => .error (.negativeBias kv.1)
        | none => .ok ()

/-- What a spec that passes `validate` is like. -/
structure Valid (s : MapSpec) : Prop where
  walker : s.walker = "clip" ∨ s.walker = "grammar"
  known : ∀ n ∈ s.familyList, isFamily n = true
  clip : s.walker = "clip" →
    (∀ n ∈ s.familyList, unsupportedReason n = none) ∧ s.familyList.length ≤ 1
  length : 3 ≤ s.length
  checkpointEvery : 0 ≤ s.checkpointEvery
  maxFootprint : 1 ≤ s.maxFootprint
  bias : ∀ kv ∈ s.bias.items, 0 ≤ kv.2

theorem clipError_eq_none {names : List String} :
    clipError names = none ↔
      (∀ n ∈ names, unsupportedReason n = none) ∧ names.length ≤ 1 := by
  unfold clipError
  split
  · next name rest h =>
    have hname : name ∈ names.filter fun n => (unsupportedReason n).isSome := by
      rw [h]
      exact List.mem_cons_self
    rw [List.mem_filter, Option.isSome_iff_ne_none] at hname
    simp only [reduceCtorEq, false_iff]
    exact fun hall => hname.2 (hall.1 name hname.1)
  · next h =>
    have hall : ∀ n ∈ names, unsupportedReason n = none := by
      intro n hn
      have := List.filter_eq_nil_iff.mp h n hn
      rwa [Option.not_isSome_iff_eq_none] at this
    rw [ite_eq_right_iff]
    constructor
    · intro hlen
      exact ⟨hall, Nat.not_lt.mp fun hlt => by cases hlen hlt⟩
    · intro hv hlt
      exact absurd hv.2 (Nat.not_le.mpr hlt)

theorem unknown_eq_nil {names : List String} :
    (names.filter fun n => !isFamily n) = [] ↔ ∀ n ∈ names, isFamily n = true := by
  rw [List.filter_eq_nil_iff]
  simp only [Bool.not_eq_true', Bool.not_eq_false]

theorem negative_eq_none {items : List (String × ℚ)} :
    (items.find? fun kv => kv.2 < 0) = none ↔ ∀ kv ∈ items, 0 ≤ kv.2 := by
  rw [List.find?_eq_none]
  simp only [decide_eq_true_eq, not_lt]

theorem Valid.of_validate {s : MapSpec} (h : s.validate = .ok ()) : s.Valid := by
  unfold validate at h
  dsimp only at h
  split at h
  · cases h
  next hwalker =>
  split at h
  · cases h
  next hknown =>
  split at h
  · cases h
  next hclip =>
  split at h
  · cases h
  next hlength =>
  split at h
  · cases h
  next hcheck =>
  split at h
  · cases h
  next hfootprint =>
  split at h
  · cases h
  next hbias =>
  refine ⟨?_, unknown_eq_nil.mp (not_not.mp hknown), ?_, by omega, by omega, by omega,
    negative_eq_none.mp hbias⟩
  · by_contra hne
    rw [not_or] at hne
    exact hwalker hne
  · intro hw
    rw [if_pos hw] at hclip
    exact clipError_eq_none.mp hclip

theorem Valid.validate {s : MapSpec} (h : s.Valid) : s.validate = .ok () := by
  have hwalker : ¬ (s.walker ≠ "clip" ∧ s.walker ≠ "grammar") := by
    rintro ⟨hclip, hgrammar⟩
    exact h.walker.elim hclip hgrammar
  have hclip : (if s.walker = "clip" then clipError s.familyList else none) = none := by
    rw [ite_eq_right_iff]
    exact fun hw => clipError_eq_none.mpr (h.clip hw)
  unfold MapSpec.validate
  dsimp only
  rw [if_neg hwalker, if_neg (not_not.mpr (unknown_eq_nil.mpr h.known)), hclip]
  dsimp only
  rw [if_neg (by have := h.length; omega), if_neg (by have := h.checkpointEvery; omega),
    if_neg (by have := h.maxFootprint; omega), negative_eq_none.mpr h.bias]

/-- `validate` passes exactly the valid specs. -/
theorem validate_eq_ok {s : MapSpec} : s.validate = .ok () ↔ s.Valid :=
  ⟨Valid.of_validate, Valid.validate⟩

end MapSpec

/-! ## The keyword translator -/

/-- The functions of the standard library that take texts apart. -/
structure TextPython extends Python where
  /-- `s.strip()`. -/
  strip : String → String
  /-- `s.lower()`. -/
  lower : String → String
  /-- `\d` of a regular expression. -/
  isDigit : Char → Bool
  /-- `\s` of a regular expression. -/
  isSpace : Char → Bool

/-- What the translators raise. -/
inductive TranslateError where
  | spec (e : SpecError)
  | python (e : PyError)
  | attributeError
  /-- `URLError`, `TimeoutError` or `OSError`. -/
  | host
  /-- `RuntimeError(f"LLM translation failed for \x7btext!r\x7d")`. -/
  | translationFailed (text : String)
deriving DecidableEq

/-- `re.findall(r"[a-z]+", text.lower())`. -/
def tokens (py : TextPython) (text : String) : List String :=
  (((py.lower text).toList.splitOnP fun c => !c.isLower).filter (· ≠ [])).map String.ofList

/-- `re.search(r"(\d+)\s*(?:…)", …)`, its first group: the digits before the first of the keywords
    that has any. No digit is a space or starts a keyword, so a match takes all digits up to its
    spaces. -/
def countBefore (py : TextPython) (keywords : List String) : List Char → Option String
  | [] => none
  | c :: cs =>
    let digits := (c :: cs).takeWhile py.isDigit
    let rest := ((c :: cs).dropWhile py.isDigit).dropWhile py.isSpace
    if py.isDigit c ∧ keywords.any (fun k => k.toList.isPrefixOf rest) then
      some (String.ofList digits)
    else countBefore py keywords cs

/-- The families that the words name. -/
def nameFamilies (words : List String) (s : MapSpec) : MapSpec :=
  let named := words.filterMap fun w => familyWords.lookup w
  match named.getLast? with
  | none => s
  | some last =>
    -- `list(dict.fromkeys(named))` keeps the first mention of each.
    let distinct := named.foldl (fun seen n => if n ∈ seen then seen else seen ++ [n]) []
    { s with
      families := distinct
      family := last
      walker :=
        if 1 < distinct.length ∨ (unsupportedReason last).isSome then "grammar" else s.walker }

/-- The last length word decides. -/
def nameLength (words : List String) (s : MapSpec) : MapSpec :=
  match (words.filterMap fun w => lengthWords.lookup w).getLast? with
  | none => s
  | some n => { s with length := n }

/-- `int(m.group(1))`. -/
def intOfGroup (py : TextPython) (digits : String) : Except TranslateError Int :=
  match py.intOfText digits with
  | some n => .ok n
  | none => .error (.python .valueError)

/-- `max(1, spec.length // (n + 1))` for `n` checkpoints. -/
def cadence (length n : Int) : Int := max 1 (length.fdiv (n + 1))

/-- An explicit block count. -/
def countBlocks (py : TextPython) (text : List Char) (s : MapSpec) : Except TranslateError MapSpec :=
  match countBefore py ["block", "long"] text with
  | none => .ok s
  | some digits => do
    let n ← intOfGroup py digits
    return { s with length := n }

/-- An explicit count of checkpoints. -/
def countCheckpoints (py : TextPython) (text : List Char) (s : MapSpec) :
    Except TranslateError MapSpec :=
  match countBefore py ["checkpoint", "cp"] text with
  | none => .ok s
  | some digits => do
    let n ← intOfGroup py digits
    return if 0 < n then { s with checkpointEvery := cadence s.length n } else s

/-- The weight of one block group under one more word: weights multiply, a ban stays. -/
def compose (bias : Dict String ℚ) (entry : String × ℚ) : Dict String ℚ :=
  bias.upsert entry.1 fun old =>
    if entry.2 = 0 ∨ old = some 0 then 0 else old.getD 1 * entry.2

/-- The weights that the words ask for. -/
def composeAll (words : List String) : Dict String ℚ :=
  (words.flatMap fun w => (styleVocab.lookup w).getD []).foldl compose Dict.empty

/-- `from_description`. -/
def fromDescription (py : TextPython) (text : String) (seed : Int) :
    Except TranslateError MapSpec := do
  let words := tokens py text
  let lowered := (py.lower text).toList
  let named := nameLength words (nameFamilies words { seed, description := py.strip text })
  let sized ← countBlocks py lowered named
  let counted ← countCheckpoints py lowered sized
  let spec := { counted with bias := composeAll words }
  match spec.validate with
  | .error e => .error (.spec e)
  | .ok () => return spec

/-- What the keyword translator returns has passed its validation. -/
theorem fromDescription_valid {py : TextPython} {text : String} {seed : Int} {s : MapSpec}
    (h : fromDescription py text seed = .ok s) : s.Valid := by
  unfold fromDescription at h
  obtain ⟨sized, -, h⟩ := bind_eq_ok.mp h
  obtain ⟨counted, -, h⟩ := bind_eq_ok.mp h
  dsimp only at h
  split at h
  · cases h
  · next hv =>
    obtain rfl := Except.ok.inj h
    exact MapSpec.validate_eq_ok.mp hv

end TraxMania.Generation.Spec
