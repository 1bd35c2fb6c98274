import TraxMania.Generation.Grammar
import TraxMania.Generation.Placement
import TraxMania.Lib.Backtrack
import TraxMania.Lib.Draw

/-
  The grammar walker: a route whose steps are moves the corpus attests. `attempt` is a depth-first
  search with backtracking over the placements, the occupied cells, the number of levels over each
  column and the requested surfaces reached so far; `generate` restarts it from fresh draws.
-/

namespace TraxMania.Generation.GrammarWalk

open TraxMania.Grid TraxMania.Catalogue Lib Lib.Draw Lib.Backtrack

/-! ## Constants -/

/-- `MAX_LEVELS_PER_COLUMN`. -/
def maxLevelsPerColumn : Int := 2
/-- `GAP_MIN_MAPS_FACTOR`. -/
def gapMinMapsFactor : Int := 10
/-- `NO_CLIP_MIN_MAPS_FACTOR`. -/
def noClipMinMapsFactor : Int := 5
/-- `RECENCY_WINDOW`. -/
def recencyWindow : Nat := 14

section Factors

variable (F : Type*) [OfScientific F]

/-- `COLUMN_REUSE_PENALTY`. -/
def columnReusePenalty : F := 0.05
/-- `UNVISITED_FAMILY_BOOST`. -/
def unvisitedFamilyBoost : F := 5000.0
/-- `SEQUENCE_WEIGHT`. -/
def sequenceWeight : F := 0.0
/-- `RECENCY_PENALTY`. -/
def recencyPenalty : F := 0.25

end Factors

/-! ## Footprints -/

/-- `_Oriented`. -/
structure Oriented where
  blockId : String
  rotation : Int
  cells : List Cell
  waypoint : String

/-- `_variant_kind(y)`. -/
def variantKind (y : Int) : String := if y ≤ groundY then "ground" else "air"

/-- The variant `_orientations` settles on: the kind asked for, or the other one when that has no
units. -/
def variantFor (block : BlockDef) (kind : String) : Option BlockVariant :=
  let other := if kind = "ground" then "air" else "ground"
  ((block.variant kind 0).filter fun v => v.units ≠ []).or
    ((block.variant other 0).filter fun v => v.units ≠ [])

/-- The unit cells of a variant at a rotation. -/
def cellsOf (variant : BlockVariant) (rotation : Int) : List Cell :=
  variant.units.map fun u => rotateOffset u.offset rotation variant.size

/-- `_orientations(block, kind)`. -/
def orientations (block : BlockDef) (kind : String) : List Oriented :=
  match variantFor block kind with
  | none => []
  | some variant => [0, 1, 2, 3].map fun rotation =>
      ⟨block.blockId, rotation, cellsOf variant rotation, block.waypoint⟩

/-- `_POOL_PREFIXES(pool)`. -/
def poolPrefixes (pool : List String) : List String :=
  ["RoadTech", "RoadDirt", "RoadBump", "RoadIce", "RoadWater", "PlatformTech", "PlatformDirt",
    "PlatformIce", "PlatformGrass", "PlatformPlastic", "PlatformWater"].filter fun p =>
    pool.any fun b => startsWith b p

/-- `_NEIGHBOURS`. -/
def neighbours : List Cell :=
  [⟨1, 0, 0⟩, ⟨-1, 0, 0⟩, ⟨0, 1, 0⟩, ⟨0, -1, 0⟩, ⟨0, 0, 1⟩, ⟨0, 0, -1⟩]

/-- `_touches(source, target)`. -/
def Touches (source target : List Cell) : Prop := ∃ c ∈ target, ∃ d ∈ neighbours, c + d ∈ source

instance (source target : List Cell) : Decidable (Touches source target) :=
  inferInstanceAs (Decidable (∃ c ∈ target, ∃ d ∈ neighbours, c + d ∈ source))

/-- A jump is defined by not touching; everything else has to touch. -/
def MeetsAs (gap : Bool) (source target : List Cell) : Prop :=
  if gap then ¬ Touches source target else Touches source target

instance (gap : Bool) (source target : List Cell) : Decidable (MeetsAs gap source target) :=
  inferInstanceAs (Decidable (if gap = true then ¬ Touches source target else Touches source target))

/-- `_faces_travel(rotation, travel)`. -/
def FacesTravel (rotation : Int) (travel : Cell) : Prop :=
  let want := faceDelta (rotateFace gateForwardLocalFace rotation)
  (want.x, want.z) = (travel.x.sign, travel.z.sign)

instance (rotation : Int) (travel : Cell) : Decidable (FacesTravel rotation travel) :=
  inferInstanceAs (Decidable (_ = _))

/-- `_reverse_offset(move)`. -/
def reverseOffset (m : Move) : Cell :=
  rotateVector ⟨-m.offset.x, -m.offset.y, -m.offset.z⟩ ((4 - m.relRotation) % 4)

/-- `{(c[0], c[2]) for c in cells}`. -/
def columnsOf (cells : List Cell) : Finset (Int × Int) := (cells.map fun c => (c.x, c.z)).toFinset

/-! ## The walker -/

/-- `_cells` and `_waypoint`. -/
structure Tables where
  cells : Dict (String × Int × String) (List Cell)
  waypoint : Dict String String

namespace Tables

def empty : Tables := ⟨Dict.empty, Dict.empty⟩

/-- The body of the innermost loop of the constructor. -/
def add (blockId kind : String) (t : Tables) (o : Oriented) : Tables :=
  ⟨t.cells.upsert (blockId, o.rotation, kind) fun _ => o.cells,
    t.waypoint.upsert blockId fun _ => o.waypoint⟩

def addBlock (blockId : String) (block : BlockDef) (t : Tables) : Tables :=
  ["ground", "air"].foldl (fun t kind => (orientations block kind).foldl (add blockId kind) t) t

/-- `for block_id in pool`. -/
def fill (catalogue : Dict String BlockDef) : List String → Tables → Except WalkError Tables
  | [], t => .ok t
  | blockId :: pool, t =>
    match catalogue.get? blockId with
    | none => .error (.keyError s!"block not in catalogue: {blockId}")
    | some block => fill catalogue pool (addBlock blockId block t)

end Tables

/-- The walker after its constructor. -/
structure GrammarWalker (F : Type*) where
  seed : Int
  grammar : PlacementGrammar
  minMaps : Int
  allowJumps : Bool
  gapMinMaps : Int
  bias : Dict String F
  allow : Finset String
  require : List String
  model : Option RouteModel
  jumpBias : F
  drivenPrior : Option (DrivenPrior F)
  drivenWeight : F
  cells : Dict (String × Int × String) (List Cell)
  waypoint : Dict String String
  starts : List String
  finishes : List String

/-- The arguments of the constructor. -/
structure Options (F : Type*) where
  seed : Int
  minMaps : Int
  allowJumps : Bool
  gapMinMaps : Option Int
  bias : Dict String F
  routeOnly : Bool
  requirePrefixes : List String
  model : Option RouteModel
  jumpBias : F
  drivenPrior : Option (DrivenPrior F)
  drivenWeight : F

/-- The seeds of the route vocabulary: the waypoint blocks and the surface-transition blocks. -/
def vocabularySeeds (waypoint : Dict String String) (pool : List String) : List String :=
  (pool.filter fun b =>
    (waypoint.get? b).any fun w => w ∈ ["Start", "Finish", "Checkpoint", "StartFinish"]) ++
  pool.filter fun b => (poolPrefixes pool).any fun p => occursIn ("To" ++ p) b

/-- `self._allow`: the pool, or the route vocabulary in it. -/
def allowed {F : Type*} (grammar : PlacementGrammar) (waypoint : Dict String String)
    (pool : List String) (o : Options F) : Finset String :=
  if o.routeOnly then
    grammar.routeVocabulary (vocabularySeeds waypoint pool) pool.toFinset o.minMaps
  else pool.toFinset

namespace GrammarWalker

/-- `GrammarWalker(catalogue, grammar, pool, …)`. -/
def init {F : Type*} (catalogue : Dict String BlockDef) (grammar : PlacementGrammar)
    (pool : List String) (o : Options F) : Except WalkError (GrammarWalker F) :=
  match Tables.fill catalogue pool Tables.empty with
  | .error e => .error e
  | .ok t =>
    let starts := pool.filter fun b => t.waypoint.get? b = some "Start"
    let finishes := pool.filter fun b => t.waypoint.get? b = some "Finish"
    if starts = [] ∨ finishes = [] then
      .error (.valueError "pool needs at least one Start and one Finish")
    else
      let allow := allowed grammar t.waypoint pool o
      if allow.filter (· ∈ grammar.moves.keys) = ∅ then
        .error (.valueError ("no block in the pool appears in the grammar; export a " ++
          "wider slice or lower --min-maps"))
      else
        .ok { seed := o.seed, grammar, minMaps := o.minMaps, allowJumps := o.allowJumps,
              gapMinMaps := o.gapMinMaps.getD (o.minMaps * gapMinMapsFactor), bias := o.bias, allow,
              require := o.requirePrefixes, model := o.model, jumpBias := o.jumpBias,
              drivenPrior := o.drivenPrior, drivenWeight := o.drivenWeight, cells := t.cells,
              waypoint := t.waypoint, starts, finishes }

end GrammarWalker

/-! ## Candidates -/

namespace GrammarWalker

variable {F : Type*} (w : GrammarWalker F)

/-- `_is_directional(block_id)`. -/
def isDirectional (blockId : String) : Bool :=
  Generation.isDirectional ((w.waypoint.get? blockId).getD "") blockId

/-- What `_candidates` keeps of the moves of the grammar. -/
def keeps (want : String) (incoming : Option Cell) (m : Move) : Bool :=
  (w.waypoint.get? m.block).getD "None" == want && incoming != some m.offset &&
    !(m.isGap && m.mapCount < w.gapMinMaps)

/-- Clip-matched moves alone when there are any, well attested ones when there are not. -/
def clipFirst (out : List Move) : List Move :=
  let clipped := out.filter Move.clipMatched
  if clipped ≠ [] then clipped
  else
    let attested := out.filter fun m => decide (w.minMaps * noClipMinMapsFactor ≤ m.mapCount)
    if attested ≠ [] then attested else out

/-- The mined jumps `_candidates` adds. -/
def jumpMoves (blockId want : String) (incoming : Option Cell) : List Move :=
  match w.allowJumps, w.model with
  | true, some model =>
    ((model.jumpsFrom blockId w.minMaps).filter fun j =>
      decide (j.block ∈ w.allow) && (w.waypoint.get? j.block).getD "None" == want &&
        incoming != some j.offset).map fun j =>
      ⟨j.block, j.offset, j.relRotation, j.mapCount, j.mapCount, false⟩
  | _, _ => []

/-- `_candidates(block_id, want, incoming)`. -/
def candidates (blockId want : String) (incoming : Option Cell) : List Move :=
  let gaps := if w.allowJumps ∧ w.model.isNone then none else some false
  let moves := w.grammar.successors blockId w.minMaps w.allow (some false) gaps
  w.clipFirst (moves.filter (w.keeps want incoming)) ++ w.jumpMoves blockId want incoming

end GrammarWalker

/-! ## The search -/

/-- The arguments of `dfs`. -/
structure Node where
  prev : Placement
  incoming : Option Cell
  steps : Int
  before : Option String

/-- `placements`, `occupied`, `columns` and `visited`. -/
@[ext] structure State where
  placements : List Placement
  occupied : Finset Cell
  columns : Int × Int → Int
  visited : Finset String

/-- `expansions`, `recent` and the state of `self._rng`. -/
structure Volatile (ρ : Type*) where
  expansions : Int
  recent : List String
  rng : ρ

/-- A scored move: where it lands and what it covers. -/
structure Landing where
  move : Move
  anchor : Cell
  rotation : Int
  footprint : List Cell
  cols : Finset (Int × Int)

def Landing.placement (l : Landing) : Placement :=
  Placement.ofAnchor l.move.block l.anchor l.rotation

/-- `recent.append(block)`, at most `RECENCY_WINDOW` long. -/
def remember (recent : List String) (block : String) : List String :=
  (recent ++ [block]).drop ((recent ++ [block]).length - recencyWindow)

/-- `want`. -/
def wanted (length checkpointEvery steps : Int) : String :=
  if length ≤ steps then "Finish"
  else if 0 < checkpointEvery ∧ 0 < steps ∧ steps % checkpointEvery = 0 then "Checkpoint"
  else "None"

/-- `columns.update(cols)` and, with `-1`, `columns.subtract(cols)`. -/
def addColumns (columns : Int × Int → Int) (cols : Finset (Int × Int)) (d : Int) :
    Int × Int → Int :=
  fun col => if col ∈ cols then columns col + d else columns col

namespace GrammarWalker

variable {F : Type*}

/-- The checks a move has to pass, in the order `dfs` makes them. -/
def Admissible (w : GrammarWalker F) (n : Node) (source : List Cell) (k : State) (l : Landing) :
    Prop :=
  InBounds l.footprint ∧ (∀ c ∈ l.footprint, c ∉ k.occupied) ∧
    MeetsAs l.move.isGap source l.footprint ∧
    (w.isDirectional l.move.block → FacesTravel l.rotation (l.anchor - n.prev.anchor)) ∧
    ∀ col ∈ l.cols, k.columns col < maxLevelsPerColumn

instance (w : GrammarWalker F) (n : Node) (source : List Cell) (k : State) (l : Landing) :
    Decidable (w.Admissible n source k l) :=
  inferInstanceAs (Decidable (_ ∧ _ ∧ _ ∧ _ ∧ _))

/-- Where a move lands, when it may. -/
def land (w : GrammarWalker F) (n : Node) (source : List Cell) (k : State) (m : Move) :
    Option Landing :=
  let (anchor, rotation) := m.apply n.prev.anchor n.prev.rotation
  match w.cells.get? (m.block, rotation, variantKind anchor.y) with
  | none => none
  | some cells =>
    let footprint := shiftAll anchor cells
    let l : Landing := ⟨m, anchor, rotation, footprint, columnsOf footprint⟩
    if w.Admissible n source k l then some l else none

/-- The requested surfaces a block reaches first. -/
def reached (w : GrammarWalker F) (visited : Finset String) (block : String) : Finset String :=
  (w.require.filter fun p => decide (p ∉ visited) && startsWith block p).toFinset

section Numbers

variable [Zero F] [Add F] [Mul F] [Div F] [LE F] [DecidableLE F] [BEq F] [IntCast F]
  [OfScientific F]

/-- `_weight(move)`. -/
def moveWeight (w : GrammarWalker F) (m : Move) : F :=
  (m.mapCount : F) * biasFor w.bias m.block * (if m.clipMatched then 1.5 else 1.0)

/-- The weight `dfs` gives a landing. -/
def weight (w : GrammarWalker F) (n : Node) (k : State) (recent : List String) (l : Landing) : F :=
  let weight := w.moveWeight l.move
  let weight := if l.move.block ∈ recent then weight * recencyPenalty F else weight
  let weight := match w.model with
    | none => weight
    | some model =>
      let score := model.sequenceScore n.before n.prev.blockId l.move.block l.move.offset
        l.move.relRotation
      if score != 0 then weight * (1.0 + sequenceWeight F * score) else weight
  let weight := match w.drivenPrior with
    | none => weight
    | some prior =>
      let share := prior.share n.prev.blockId l.move.block
      if share != 0 then weight * (1.0 + w.drivenWeight * share) else weight
  let weight := if l.move.isGap then weight * w.jumpBias else weight
  let weight :=
    if ∃ col ∈ l.cols, k.columns col ≠ 0 then weight * columnReusePenalty F else weight
  if w.reached k.visited l.move.block ≠ ∅ then weight * unvisitedFamilyBoost F else weight

variable {ρ : Type*}

/-- `_shuffle(scored)`. -/
def shuffle (R : Rng ρ F) (scored : List (Landing × F)) (r : ρ) : List Landing × ρ :=
  drawAll R (fun items => decide (total items ≤ 0)) scored.length scored r

/-- `_order(scored)`: clip-matched moves and jumps before the rest. -/
def order (R : Rng ρ F) (scored : List (Landing × F)) (r : ρ) : List Landing × ρ :=
  let primary := fun s : Landing × F => s.1.move.clipMatched || s.1.move.isGap
  let (clip, r) := shuffle R (scored.filter primary) r
  let (rest, r) := shuffle R (scored.filter fun s => !primary s) r
  (clip ++ rest, r)

/-- `dfs` up to its loop over the ordered moves. -/
def expand (w : GrammarWalker F) (R : Rng ρ F) (length checkpointEvery maxExpansions : Int)
    (n : Node) (k : State) (a : Volatile ρ) : Except WalkError (List Landing × Volatile ρ) :=
  let expansions := a.expansions + 1
  if maxExpansions < expansions then
    .error (.routeDeadEnd s!"expansion budget exhausted after {expansions} nodes")
  else
    let want := wanted length checkpointEvery n.steps
    let moves := w.candidates n.prev.blockId want n.incoming
    let moves :=
      if moves = [] ∧ want = "Checkpoint" then w.candidates n.prev.blockId "None" n.incoming
      else moves
    match w.cells.get? (n.prev.blockId, n.prev.rotation, variantKind n.prev.y) with
    | none => .error (.keyError n.prev.blockId)
    | some cells =>
      let source := shiftAll n.prev.anchor cells
      let scored := (moves.filterMap (w.land n source k)).map fun l =>
        (l, w.weight n k a.recent l)
      let (landings, rng) := order R scored a.rng
      .ok (landings, ⟨expansions, a.recent, rng⟩)

/-- The state before and after the recursive call of `dfs`. -/
def tryLanding (w : GrammarWalker F) (length checkpointEvery : Int) (n : Node) (k : State)
    (l : Landing) : Attempt State Node :=
  let placements := k.placements ++ [l.placement]
  if wanted length checkpointEvery n.steps = "Finish" then .close { k with placements }
  else
    let reached := w.reached k.visited l.move.block
    .descend
      ⟨placements, k.occupied ∪ l.footprint.toFinset, addColumns k.columns l.cols 1,
        k.visited ∪ reached⟩
      ⟨l.placement, some (reverseOffset l.move), n.steps + 1, some n.prev.blockId⟩
      fun k => ⟨k.placements.dropLast, k.occupied \ l.footprint.toFinset,
        addColumns k.columns l.cols (-1), k.visited \ reached⟩

def search (w : GrammarWalker F) (R : Rng ρ F) (length checkpointEvery maxExpansions : Int) :
    Search State (Volatile ρ) Node Landing WalkError where
  expand := w.expand R length checkpointEvery maxExpansions
  attempt := w.tryLanding length checkpointEvery
  note l a := { a with recent := remember a.recent l.move.block }
  unnote a := { a with recent := a.recent.dropLast }

/-- The state in which `_attempt` calls `dfs`. -/
def startState (w : GrammarWalker F) (start : Placement) (cells : List Cell) : State where
  placements := [start]
  occupied := (shiftAll origin cells).toFinset
  columns := fun col =>
    (((shiftAll origin cells).toFinset.filter fun c => (c.x, c.z) = col).card : Int)
  visited := w.reached ∅ start.blockId

/-- `_attempt` once the start is drawn, with fuel for the recursion of `dfs`. -/
def attemptFrom (w : GrammarWalker F) (R : Rng ρ F) (length checkpointEvery maxExpansions : Int)
    (fuel : Nat) (start : Placement) (r : ρ) : Except WalkError (List Placement) :=
  match w.cells.get? (start.blockId, start.rotation, variantKind start.y) with
  | none => .error (.keyError start.blockId)
  | some cells =>
    match (w.search R length checkpointEvery maxExpansions).dfs (.routeDeadEnd "") fuel
        ⟨start, none, 1, none⟩ (w.startState start cells) ⟨0, [], r⟩ with
    | .found k _ => .ok k.placements
    | .raised e => .error e
    | .dead _ a =>
      let expansions := a.expansions
      .error (.routeDeadEnd
        s!"no route of length {length} found from (24, 9, 24) ({expansions} expansions)")

/-- `_attempt(length, checkpoint_every, max_expansions)`. -/
def attempt (w : GrammarWalker F) (R : Rng ρ F) (length checkpointEvery maxExpansions : Int)
    (r : ρ) : Except WalkError (List Placement) :=
  match choice R w.starts r with
  | (none, _) => .error .indexError
  | (some startId, r) =>
    let (startRot, r) := R.below 4 r
    w.attemptFrom R length checkpointEvery maxExpansions (maxExpansions.toNat + 1)
      (Placement.ofAnchor startId origin startRot) r

/-- `missing`: the requested prefixes the route does not have. -/
def missing (w : GrammarWalker F) (route : List Placement) : List String :=
  w.require.filter fun p => !route.any fun pl => startsWith pl.blockId p

/-- `repr` of a list of strings. -/
def listText (xs : List String) : String :=
  "[" ++ ", ".intercalate (xs.map fun x => "'" ++ x ++ "'") ++ "]"

/-- The loop of `generate` from the given attempt on; `seeded` is `random.Random`. -/
def attempts (w : GrammarWalker F) (R : Rng ρ F) (seeded : String → ρ)
    (length checkpointEvery maxExpansions total : Int) :
    Nat → Nat → String → Except WalkError (List Placement)
  | 0, _, last =>
    .error (.routeDeadEnd s!"no route of length {length} after {total} attempts: {last}")
  | left + 1, attempt, _ =>
    let seed := w.seed
    match w.attempt R length checkpointEvery maxExpansions (seeded s!"{seed}:{attempt}") with
    | .ok route =>
      if w.missing route = [] then .ok route
      else
        let text := listText (w.missing route)
        w.attempts R seeded length checkpointEvery maxExpansions total left (attempt + 1)
          s!"route reached none of {text}"
    | .error (.routeDeadEnd text) =>
      w.attempts R seeded length checkpointEvery maxExpansions total left (attempt + 1) text
    | .error e => .error e

/-- `generate(length, checkpoint_every, max_expansions, attempts)`. -/
def generate (w : GrammarWalker F) (R : Rng ρ F) (seeded : String → ρ)
    (length checkpointEvery maxExpansions total : Int) : Except WalkError (List Placement) :=
  w.attempts R seeded length checkpointEvery maxExpansions total total.toNat 0 "None"

end Numbers

end GrammarWalker

end TraxMania.Generation.GrammarWalk
