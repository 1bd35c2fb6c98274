import Mathlib.Tactic.Common

/-
  What the GBX wrapper hands to the map-parse pipeline: `ParseStatus`, `ParseErrorCode` and
  `ParseResult`, with the payload of a parsed map. `φ` is the type of the wrapper's floats, which
  the pipeline only passes on.
-/

namespace TraxMania.Parsers

inductive ParseStatus
  | unparsed
  | success
  | failedTransient
  | failedPermanent
  | skipped
  deriving DecidableEq, Repr

inductive ParseErrorCode
  | none
  | gbxReadError
  | unsupportedFormat
  | corruptHeader
  | corruptBody
  | unknownBlockType
  | wrapperTimeout
  | wrapperCrash
  | ioError
  | unknown
  deriving DecidableEq, Repr

/-- Where the wrapper says a block or a waypoint is: `"placement": "free"`, or anything else. -/
inductive Placement (φ : Type)
  | free (absX absY absZ yaw pitch roll : Option φ)
  | grid (x y z : Option Int)
  deriving DecidableEq

/-- A block of the wrapper's output. In `flags`, `some none` is a value that `int()` refuses. -/
structure ParsedBlock (φ : Type) where
  name : Option String
  variant : Option String
  direction : Option String
  flags : Option (Option Int)
  placement : Placement φ
  deriving DecidableEq

/-- A waypoint of the wrapper's output. -/
structure ParsedWaypoint (φ : Type) where
  tag : Option String
  order : Option Int
  blockName : Option String
  placement : Placement φ
  deriving DecidableEq

/-- The scenery values, as `_scenery_params` returns them. -/
structure Scenery where
  mood : Option String
  decorationId : Option String
  dayTimeSeconds : Option Int
  dynamicDaylight : Option Bool
  itemCount : Option Int
  signpostCount : Option Int
  standardItemCount : Option Int
  customItemCount : Option Int
  hasCustomItems : Option Bool
  deriving DecidableEq

/-- The output of a successful parse. An entry of `blocks` or `waypoints` that is not a mapping is
`none`. -/
structure Output (φ : Type) where
  title : Option String
  author : Option String
  environment : Option String
  hasItems : Option Bool
  isBlockMode : Option Bool
  scenery : Scenery
  blocks : List (Option (ParsedBlock φ))
  waypoints : List (Option (ParsedWaypoint φ))
  deriving DecidableEq

/-- A `ParseResult` that passed `__post_init__`. -/
structure ParseResult (φ : Type) where
  status : ParseStatus
  errorCode : ParseErrorCode
  errorDetail : Option String
  output : Option (Output φ)
  success_complete : status = .success → errorCode = .none ∧ output.isSome
  failure_coded : status ≠ .success → status ≠ .unparsed → errorCode ≠ .none

/-- The result of a successful parse. -/
def ParseResult.ok {φ : Type} (output : Output φ) : ParseResult φ :=
  ⟨.success, .none, none, some output, fun _ => ⟨rfl, rfl⟩, fun h => absurd rfl h⟩

/-- The output that `_process_one` goes on with: `none` where it writes a failure. -/
def ParseResult.accepted {φ : Type} (r : ParseResult φ) : Option (Output φ) :=
  if r.status = .success then r.output else none

theorem accepted_isSome_iff {φ : Type} (r : ParseResult φ) :
    r.accepted.isSome ↔ r.status = .success := by
  unfold ParseResult.accepted
  split
  · next h => simp [h, (r.success_complete h).2]
  · next h => simp [h]

end TraxMania.Parsers
