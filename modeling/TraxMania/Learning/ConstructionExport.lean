import TraxMania.Lib.PyText
import TraxMania.Driven.WorldCells

/-
  The text form of construction tokens, `serialize` and `parse`, and the two encoders of
  construction tokens: one for the blocks that a car drove over (`learning/construction_export.py`)
  and one for the blocks of a map (`tools/export_raw_map_sequences.py`).
-/

namespace TraxMania.Learning

open Lib.PyText Lib.Words TraxMania.Driven TraxMania.Grid Lib

/-- A construction token, a dictionary with the keys of its `op`. -/
inductive Token where
  | place (block : Text) (d : List Int) (rot : Option Int) (free : Option Bool)
  | revisit (back : Int)
  | jump
  | gap
  | other (op : Text)
deriving DecidableEq

/-- `ESCAPE`. -/
def escapeChar : Char := '~'

/-- `LEN_BUCKETS`. -/
def lenBuckets : List (Text × Nat) :=
  [("short".toList, 40), ("med".toList, 100), ("long".toList, 10 ^ 9)]

/-- `_bucket(places)`. -/
def bucket (places : Nat) : Text :=
  ((lenBuckets.find? fun entry => places < entry.2).map (·.1)).getD "long".toList

/-- The exceptions of `serialize`. -/
inductive SerializeError where
  | valueError (text : String)
  | indexError
deriving DecidableEq

section

-- `repr` of a text
variable (repr : Text → String)

/-! ## Serialize -/

/-- `_escape(name)`. -/
def escape (name : Text) : Except SerializeError Text :=
  if escapeChar ∈ name then
    .error (.valueError ("block name contains escape char: " ++ repr name))
  else .ok (name.map fun c => if c = ' ' then escapeChar else c)

/-- `str(n)`. -/
def str (n : Int) : Except SerializeError Text :=
  match intText n with
  | some text => .ok text
  | none =>
    .error (.valueError ("Exceeds the limit (4300 digits) for integer string conversion; "
      ++ "use sys.set_int_max_str_digits() to increase the limit"))

/-- `d[i]`. -/
def coordinate (d : List Int) (i : Nat) : Except SerializeError Int :=
  match d[i]? with
  | some n => .ok n
  | none => .error .indexError

/-- What `serialize` appends to `parts` for a token. -/
def part : Token → Except SerializeError Text
  | .place block d rot free => do
    let name ← escape repr block
    let dx ← coordinate d 0 >>= str
    let dy ← coordinate d 1 >>= str
    let dz ← coordinate d 2 >>= str
    let rot ← str (rot.getD 0)
    return [' '].intercalate [if free = some true then ['F'] else ['P'], name, dx, dy, dz, rot]
  | .revisit back => do
    let back ← str back
    return 'V' :: ' ' :: back
  | .jump => .ok ['J']
  | .gap => .ok ['G']
  | .other op => .error (.valueError ("unknown op " ++ repr op))

/-- The token counts as a place. -/
def Token.isPlace : Token → Bool
  | .place .. => true
  | _ => false

/-- The header and the parts of a line, with a blank between them. -/
def line (places : Nat) (parts : List Text) : Text :=
  ("#len=".toList ++ bucket places) ++ ' ' :: [' '].intercalate parts

/-- `serialize(tokens)`. -/
def serialize (tokens : List Token) : Except SerializeError Text := do
  let parts ← tokens.mapM (part repr)
  return line (tokens.countP Token.isPlace) parts

/-! ## Parse -/

/-- `_unescape(name)`. -/
def unescape (name : Text) : Text := name.map fun c => if c = escapeChar then ' ' else c

/-- The token of a placement at field `i`. Where `parse` raises a `ParseError`, its text. -/
def placement (i : Nat) (op name dx dy dz rot : Text) : Except String Token :=
  match readInt dx, readInt dy, readInt dz, readInt rot with
  | some dx, some dy, some dz, some rot =>
    if 0 ≤ rot ∧ rot ≤ 3 then
      .ok (.place (unescape name) [dx, dy, dz] (some rot) (some (op == ['F'])))
    else .error ("rotation " ++ toString rot ++ " out of range")
  | _, _, _, _ => .error ("bad numbers in " ++ String.ofList op ++ " at field " ++ toString i)

/-- The token of a revisit. -/
def backReference (arg : Text) : Except String Token :=
  match readInt arg with
  | some back =>
    if 1 ≤ back then .ok (.revisit back)
    else .error ("V back-reference " ++ toString back ++ " < 1")
  | none => .error "bad V argument"

/-- The loop of `parse`, at field `i`. -/
def parseFields (i : Nat) : List Text → Except String (List Token)
  | [] => .ok []
  | op :: fields =>
    if op = ['P'] ∨ op = ['F'] then
      match fields with
      | name :: dx :: dy :: dz :: rot :: fields => do
        let token ← placement i op name dx dy dz rot
        let tokens ← parseFields (i + 6) fields
        return token :: tokens
      | _ => .error ("truncated " ++ String.ofList op ++ " at field " ++ toString i)
    else if op = ['V'] then
      match fields with
      | arg :: fields => do
        let token ← backReference arg
        let tokens ← parseFields (i + 2) fields
        return token :: tokens
      | [] => .error "truncated V"
    else if op = ['J'] then do
      let tokens ← parseFields (i + 1) fields
      return .jump :: tokens
    else if op = ['G'] then do
      let tokens ← parseFields (i + 1) fields
      return .gap :: tokens
    else .error ("unknown op " ++ repr op ++ " at field " ++ toString i)

/-- `parse(line)`. -/
def parse (line : Text) : Except String (List Token) :=
  match words isSpace (strip isSpace line) with
  | [] => .error "empty line"
  | field :: fields =>
    if "#len=".toList <+: field then parseFields repr 1 fields
    else parseFields repr 0 (field :: fields)

end

/-! ## Driven visits -/

/-- `state` of a visit. -/
inductive VisitState where
  | airborne
  | offSurface
  /-- Anything else: the car is on a block. -/
  | onBlock
deriving DecidableEq

/-- A row of `driven_block_visits`. -/
structure BlockVisit where
  state : VisitState
  placementId : Option Int
  enterMs : Int
  exitMs : Int
deriving DecidableEq

/-- A row of `block_placements`, as the exporter fetches it. -/
structure ExportPlacement (σ : Type) where
  blockType : Text
  /-- `x`, `y`, `z` and `abs_x`, `abs_y`, `abs_z`. -/
  position : ExportRow σ
  rotation : Option Int
  isFree : Bool

/-- `ExportStats`. -/
structure ExportStats where
  sequences : Nat
  tokens : Nat
  places : Nat
  revisits : Nat
  /-- Revisits shorter than 500 ms. -/
  fastRevisits : Nat
  jumps : Nat
  gaps : Nat
  skipped : Nat
  postFinishVisits : Nat
  vocabulary : Finset Text
deriving DecidableEq

def ExportStats.zero : ExportStats := ⟨0, 0, 0, 0, 0, 0, 0, 0, 0, ∅⟩

/-- The variables of `visits_to_tokens`. -/
structure ExportState where
  tokens : List Token
  /-- Placement ids in first-visit order. -/
  placedOrder : List Int
  /-- Placement id to its index in `placed_order`. -/
  placedSet : Dict Int Nat
  prevCell : Option Cell
  stats : ExportStats

/-- Before the first visit. -/
def ExportState.start (stats : ExportStats) : ExportState := ⟨[], [], Dict.empty, none, stats⟩

/-- A context token, unless the last token is the same. -/
def ExportState.context (s : ExportState) (token : Token) (count : ExportStats → ExportStats) :
    ExportState :=
  if s.tokens.getLast? = some token then s
  else { s with tokens := s.tokens ++ [token], stats := count s.stats }

/-- `stats.skipped += 1`. -/
def ExportState.skip (s : ExportState) : ExportState :=
  { s with stats := { s.stats with skipped := s.stats.skipped + 1 } }

/-- The way from the cell before, if there is one. -/
def delta (prev : Option Cell) (c : Cell) : List Int :=
  match prev with
  | none => [0, 0, 0]
  | some p => [c.x - p.x, c.y - p.y, c.z - p.z]

section

variable {σ : Type} [Metres σ]

/-- The route returns to the placement of index `i`: the cursor moves there. -/
def ExportState.revisit (s : ExportState) (v : BlockVisit) (p : ExportPlacement σ) (i : Nat) :
    ExportState :=
  { s with
    tokens := s.tokens ++ [.revisit (s.placedOrder.length - i)]
    prevCell := (exportCell p.position).or s.prevCell
    stats := { s.stats with
      revisits := s.stats.revisits + 1
      fastRevisits := s.stats.fastRevisits + if v.exitMs - v.enterMs < 500 then 1 else 0 } }

/-- The first visit to a placement. -/
def ExportState.place (s : ExportState) (pid : Int) (p : ExportPlacement σ) (c : Cell) :
    ExportState where
  tokens := s.tokens ++
    [.place p.blockType (delta s.prevCell c) (some (p.rotation.getD 0)) (some p.isFree)]
  placedOrder := s.placedOrder ++ [pid]
  placedSet := s.placedSet.upsert pid fun _ => s.placedOrder.length
  prevCell := some c
  stats := { s.stats with
    places := s.stats.places + 1
    vocabulary := insert p.blockType s.stats.vocabulary }

/-- A visit to a block. -/
def ExportState.onBlock (placements : Dict Int (ExportPlacement σ)) (s : ExportState)
    (v : BlockVisit) : ExportState :=
  match v.placementId with
  | none => s.skip
  | some pid =>
    match placements.get? pid with
    | none => s.skip
    | some p =>
      match s.placedSet.get? pid with
      | some i => s.revisit v p i
      | none =>
        match exportCell p.position with
        | none => s.skip
        | some c => s.place pid p c

/-- One turn of the loop over the visits. -/
def exportVisit (placements : Dict Int (ExportPlacement σ)) (s : ExportState) (v : BlockVisit) :
    ExportState :=
  match v.state with
  | .airborne => s.context .jump fun stats => { stats with jumps := stats.jumps + 1 }
  | .offSurface => s.context .gap fun stats => { stats with gaps := stats.gaps + 1 }
  | .onBlock => s.onBlock placements v

/-- The loop over the visits. -/
def exportVisits (visits : List BlockVisit) (placements : Dict Int (ExportPlacement σ))
    (stats : ExportStats) : ExportState :=
  visits.foldl (exportVisit placements) (ExportState.start stats)

/-- `visits_to_tokens(visits, placements, stats)`: the tokens, and the statistics afterwards. -/
def visitsToTokens (visits : List BlockVisit) (placements : Dict Int (ExportPlacement σ))
    (stats : ExportStats) : List Token × ExportStats :=
  let s := exportVisits visits placements stats
  (s.tokens, { s.stats with tokens := s.stats.tokens + s.tokens.length })

end

/-! ## Whole maps -/

/-- A grid block of a map. -/
structure RawBlock where
  block : Text
  cell : Cell
  rot : Int
deriving DecidableEq

/-- The loop of `blocks_to_tokens`, from the cell `prev` on. -/
def blockTokens (prev : Option Cell) : List RawBlock → List Token
  | [] => []
  | b :: blocks =>
    .place b.block (delta prev b.cell) (some (b.rot % 4)) (some false) ::
      blockTokens (some b.cell) blocks

/-- `blocks_to_tokens(blocks)`. -/
def blocksToTokens (blocks : List RawBlock) : List Token := blockTokens none blocks

end TraxMania.Learning
