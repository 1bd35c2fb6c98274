import TraxMania.Driven.BlockMatcher
import TraxMania.Lib.Runs
import TraxMania.Lib.Viterbi

/-
  Driven paths: the states a sample can be in, what they and the moves between them cost, the
  cheapest sequence of states over a trajectory, and the visits and figures read off it.
-/

namespace TraxMania.Driven

open TraxMania.Grid Lib Lib.Viterbi

/-! ## States and costs -/

/-- What the car was on at a sample: the index of a placement, `AIRBORNE` (-1) or `OFF_SURFACE`
    (-2). -/
inductive State where
  | placement (index : Nat)
  | airborne
  | offSurface
deriving DecidableEq

/-- `s >= 0`. -/
def State.isBlock : State → Bool
  | .placement _ => true
  | _ => false

/-- `COST_STAY`. -/
def costStay : ℚ := 0
/-- `COST_ADJACENT`. -/
def costAdjacent : ℚ := 1
/-- `COST_STATE_CHANGE`. -/
def costStateChange : ℚ := 3
/-- `COST_TELEPORT`. -/
def costTeleport : ℚ := 40
/-- `COST_IGNORE_CANDIDATE`. -/
def costIgnoreCandidate : ℚ := 2

abbrev Adjacency := Dict Nat (List Nat)

/-- `b in adjacent.get(a, ())`. -/
def Adjacency.has (adjacent : Adjacency) (a b : Nat) : Bool :=
  ((adjacent.get? a).getD []).contains b

/-- `t`: what a move from `p` to `s` costs. -/
def transition (adjacent : Adjacency) (p s : State) : ℚ :=
  if p = s then costStay
  else
    match p, s with
    | .placement a, .placement b => if adjacent.has a b then costAdjacent else costTeleport
    | _, _ => costStateChange

/-- `emit`: being on no block costs when the step has other states. -/
def emission (states : List State) (s : State) : ℚ :=
  if s.isBlock = false ∧ 1 < states.length then costIgnoreCandidate else 0

/-! ## Which placements touch -/

/-- `deltas`: the cells of a shared cell and of a shared face. -/
def deltas : List Cell :=
  [⟨1, 0, 0⟩, ⟨-1, 0, 0⟩, ⟨0, 0, 1⟩, ⟨0, 0, -1⟩, ⟨0, 1, 0⟩, ⟨0, -1, 0⟩, ⟨0, 0, 0⟩]

/-- `cell_owner`. -/
def cellOwner (footprints : Dict Nat (List Cell)) : Dict Cell (List Nat) :=
  footprints.items.foldl
    (fun owners f => f.2.foldl (fun owners cell => addOwner owners cell f.1) owners) Dict.empty

/-- `out[pid]`: the other owners of the cells and of the cells next to them. -/
def touching (owners : Dict Cell (List Nat)) (pid : Nat) (cells : List Cell) : List Nat :=
  cells.flatMap fun cell => deltas.flatMap fun delta =>
    ((owners.get? (cell + delta)).getD []).filter (· ≠ pid)

/-- `_adjacency(placements, footprints)`. -/
def adjacency (footprints : Dict Nat (List Cell)) : Adjacency :=
  let owners := cellOwner footprints
  footprints.items.foldl (fun out f => out.upsert f.1 fun _ => touching owners f.1 f.2) Dict.empty

/-- `by_id`. -/
def byId {σ : Type} (placements : List (Placement σ)) : Dict Nat (Placement σ) :=
  placements.foldl (fun d p => d.upsert p.index fun _ => p) Dict.empty

/-- `footprints`: the cells of every placement on the grid. -/
def footprints {σ : Type} (catalogue : BlockCatalogue) (placements : List (Placement σ)) :
    Dict Nat (List Cell) :=
  (placements.filter fun p => !p.isFree).foldl
    (fun d p => d.upsert p.index fun _ => gridFootprintCells catalogue p) Dict.empty

/-! ## The states of a sample -/

section Sweep

variable {σ : Type} [Metres σ] (math : Math σ)

/-- `SWEEP_STEP_M`. -/
def sweepStepM : σ := const 16

/-- `ROW_TOLERANCE`. -/
def rowTolerance : List Int := [0, -1]

/-- `points`: the start of a segment, and points along it when it is long. -/
def sweptPoints (a : Point σ) : Option (Point σ) → List (Point σ)
  | none => [a]
  | some b =>
    let dist := math.dist a b
    if sweepStepM < dist then
      let n := (Metres.floor (dist / sweepStepM)).toNat
      a :: (List.range n).map fun k =>
        let t : σ := const (k + 1) / const (n + 1)
        ⟨a.x + (b.x - a.x) * t, a.y + (b.y - a.y) * t, a.z + (b.z - a.z) * t⟩
    else [a]

/-- The placements that one position could be on. -/
def pointCandidates (index : CandidateIndex σ) (p : Point σ) : List Nat :=
  (rowTolerance.flatMap fun dy => index.gridCandidates p dy) ++ index.freeCandidates math p

/-- `_swept_candidates(index, a, b)`. -/
def sweptCandidates (index : CandidateIndex σ) (a : Point σ) (b : Option (Point σ)) : List Nat :=
  firsts id ((sweptPoints math a b).flatMap fun p => pointCandidates math index p)

/-- `step_states[i]`: the swept candidates and one state that is no placement. -/
def statesAt (index : CandidateIndex σ) (samples : List (Sample σ)) (i : Nat) : List State :=
  match samples[i]? with
  | none => []
  | some a =>
    (sweptCandidates math index a.pos ((samples[i + 1]?).map Sample.pos)).map State.placement ++
      [if airborneAt samples i then State.airborne else State.offSurface]

/-- `step_states`. -/
def stepStates (index : CandidateIndex σ) (samples : List (Sample σ)) : List (List State) :=
  (List.range samples.length).map fun i => statesAt math index samples i

end Sweep

/-- The layers of the search: the states of each step with what they cost. -/
def layers (steps : List (List State)) : List (Layer State ℚ) :=
  steps.map fun states => ⟨states, emission states⟩

/-! ## Visits, checkpoints and figures -/

/-- `Visit`: a stretch of samples on one state. -/
structure Visit where
  state : State
  blockType : String
  firstSample : Nat
  lastSample : Nat
  enterMs : Int
  exitMs : Int

/-- `duration_ms`. -/
def Visit.durationMs (v : Visit) : Int := v.exitMs - v.enterMs

/-- `stats`. -/
structure Stats where
  samples : Nat
  visits : Nat
  blockVisits : Nat
  distinctBlocks : Nat
  airborneVisits : Nat
  offSurfaceVisits : Nat
  offSurfaceMs : Int
  teleports : Nat

/-- `DrivenPath`. -/
structure DrivenPath where
  visits : List Visit
  states : List State
  checkpointHits : Nat
  checkpointTotal : Nat
  spawnOk : Option Bool := none
  goalOk : Option Bool := none
  stats : Stats

/-- A pair of states on two placements that do not touch. -/
def isTeleport (adjacent : Adjacency) : State × State → Bool
  | (.placement a, .placement b) => a ≠ b && !adjacent.has a b
  | _ => false

/-- `_count_teleports(states, adjacent)`. -/
def countTeleports (states : List State) (adjacent : Adjacency) : Nat :=
  (states.zip states.tail).countP (isTeleport adjacent)

/-- `path.stats`. -/
def statsOf (adjacent : Adjacency) (states : List State) (visits : List Visit) : Stats :=
  let blockVisits := visits.filter (·.state.isBlock)
  let offSurface := visits.filter (·.state = .offSurface)
  { samples := states.length
    visits := visits.length
    blockVisits := blockVisits.length
    distinctBlocks := (firsts id (blockVisits.map Visit.state)).length
    airborneVisits := visits.countP (·.state = .airborne)
    offSurfaceVisits := offSurface.length
    offSurfaceMs := (offSurface.map Visit.durationMs).sum
    teleports := countTeleports states adjacent }

section Extract

variable {σ : Type} [Metres σ]

/-- `int(x)`. -/
def truncInt (x : σ) : Int :=
  if x < const 0 then -(Metres.floor (-x)) else Metres.floor x

/-- The visit of a run; the placement of its state and its two samples are looked up. -/
def visitOf (placements : Dict Nat (Placement σ)) (samples : List (Sample σ)) (run : Run State) :
    Option Visit := do
  let blockType ←
    match run.state with
    | .placement index => (placements.get? index).map Placement.blockType
    | .airborne => some "AIRBORNE"
    | .offSurface => some "OFF_SURFACE"
  let first ← samples[run.first]?
  let last ← samples[run.last]?
  some ⟨run.state, blockType, run.first, run.last, truncInt first.timeMs, truncInt last.timeMs⟩

/-- A crossing is hit when a sample near it is in, or up to two rows above, a waypoint cell. -/
def checkpointHit (waypointCells : Dict Cell String) (samples : List (Sample σ)) (ci : Int) :
    Bool :=
  (List.range samples.length).any fun j =>
    decide (ci - 2 ≤ j) && decide (j < ci + 3) && (samples[j]?).any fun s =>
      [0, -1, -2].any fun dy => (waypointCells.get? (toCell s.pos + ⟨0, dy, 0⟩)).isSome

/-- `extract_driven_path(…)`: nothing when a subscript fails. -/
def extractDrivenPath (math : Math σ) (samples : List (Sample σ))
    (placements : List (Placement σ)) (catalogue : BlockCatalogue)
    (checkpointIndices : List Int) (waypointCells : Option (Dict Cell String))
    (freeAnchor : FreeAnchor) (freePadM : σ) : Option DrivenPath :=
  let index := CandidateIndex.init math catalogue freeAnchor freePadM placements
  let adjacent := adjacency (footprints catalogue placements)
  match layers (stepStates math index samples) with
  | [] => none
  | first :: rest => do
    let states ← solve (transition adjacent) first rest
    let visits ← (runs states).mapM (visitOf (byId placements) samples)
    let waypoints := waypointCells.getD Dict.empty
    let crossings := if waypoints.items = [] then [] else checkpointIndices
    some {
      visits := visits
      states := states
      checkpointHits := crossings.countP (checkpointHit waypoints samples)
      checkpointTotal := crossings.length
      stats := statsOf adjacent states visits }

end Extract

end TraxMania.Driven
