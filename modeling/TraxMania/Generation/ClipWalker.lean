import TraxMania.Generation.Placement
import TraxMania.Lib.Backtrack
import TraxMania.Lib.Draw

/-
  The clip-matching walker: a chain of blocks from a start to a finish, each joined to the next by
  two ports in facing cell faces that carry the same clip. `generate` is a depth-first search with
  backtracking over the placements and the occupied cells.
-/

namespace TraxMania.Generation

open TraxMania.Grid TraxMania.Catalogue Lib Lib.Draw Lib.Backtrack

/-! ## Oriented blocks -/

/-- `_Port`: its cell relative to the anchor, its world face, its clip. -/
structure Port where
  cell : Cell
  face : Face
  clip : String
deriving DecidableEq

/-- `_Oriented`: a block at one of its four rotations, with its route-clip ports. -/
structure Oriented where
  blockId : String
  rotation : Int
  cells : List Cell
  ports : List Port
  waypoint : String
deriving DecidableEq

/-- `UnitPort` at a rotation of its variant. -/
def rotatePort (rotation : Int) (size : Cell) (p : UnitPort) : Port :=
  ⟨rotateOffset p.offset rotation size, rotateFace p.face rotation, p.clipId⟩

/-- The variant at one rotation, with those of its ports that carry a route clip. -/
def orient (block : BlockDef) (variant : BlockVariant) (localPorts : List UnitPort)
    (rotation : Int) : Oriented where
  blockId := block.blockId
  rotation := rotation
  cells := variant.units.map fun u => rotateOffset u.offset rotation variant.size
  ports := localPorts.map (rotatePort rotation variant.size)
  waypoint := block.waypoint

/-- `_orientations(block, route_clips)`. -/
def orientations (block : BlockDef) (routeClips : Finset String) : List Oriented :=
  match block.variant "ground" 0 with
  | none => []
  | some variant =>
    let localPorts := variant.sidePorts.filter fun p => decide (p.clipId ∈ routeClips)
    if localPorts = [] then []
    else [0, 1, 2, 3].map (orient block variant localPorts)

/-! ## Order of the candidates -/

/-- `FacePriors`. -/
structure FacePriors where
  table : Dict (String × String × String × Int) Int

section Numbers

variable {F : Type*} [Zero F] [Add F] [Mul F] [LE F] [DecidableLE F] [IntCast F] [OfScientific F]

/-- `FacePriors.weight`: one more than the map count of the transition. -/
def FacePriors.weight (p : FacePriors) (prevBlock : String) (prevRotation : Int)
    (nextBlock : String) (nextRotation : Int) (clip : String) : F :=
  1.0 + ((p.table.get? (prevBlock, nextBlock, clip, (nextRotation - prevRotation) % 4)).getD 0 : Int)

/-- The walker after its constructor. -/
structure ClipWalker (F : Type*) where
  priors : Option FacePriors
  bias : Dict String F
  orient : List Oriented
  starts : List Oriented
  finishes : List Oriented
  checkpoints : List Oriented
  plain : List Oriented

/-- `self._orient`, block by block. -/
def orientAll (catalogue : Dict String BlockDef) (routeClips : Finset String) :
    List String → Except WalkError (List Oriented)
  | [] => .ok []
  | blockId :: ids =>
    match catalogue.get? blockId with
    | none => .error (.keyError s!"block not in catalogue: {blockId}")
    | some block =>
      match orientAll catalogue routeClips ids with
      | .error e => .error e
      | .ok rest => .ok (orientations block routeClips ++ rest)

/-- The oriented blocks of one waypoint kind with the given number of ports. -/
def poolOf (orient : List Oriented) (waypoint : String) (nPorts : Nat) : List Oriented :=
  orient.filter fun o => o.waypoint == waypoint && o.ports.length == nPorts

namespace ClipWalker

/-- `ClipWalker(catalogue, allowed_ids, …)`. -/
def init (catalogue : Dict String BlockDef) (allowedIds : List String)
    (routeClips : Finset String) (priors : Option FacePriors) (bias : Dict String F) :
    Except WalkError (ClipWalker F) :=
  match orientAll catalogue routeClips allowedIds with
  | .error e => .error e
  | .ok orient =>
    let starts := poolOf orient "Start" 1
    let finishes := poolOf orient "Finish" 1
    if starts = [] ∨ finishes = [] then
      .error (.valueError "allowed set needs at least one Start and one Finish")
    else
      .ok { priors, bias, orient, starts, finishes,
            checkpoints := poolOf orient "Checkpoint" 2, plain := poolOf orient "None" 2 }

/-- `_weight(prev, cand, clip)`. -/
def weight (w : ClipWalker F) (prev : Placement) (cand : Oriented) (clip : String) : F :=
  let base := match w.priors with
    | none => 1.0
    | some p => p.weight prev.blockId prev.rotation cand.blockId cand.rotation clip
  base * biasFor w.bias cand.blockId

variable {ρ : Type*}

/-- `_order_candidates(pool, prev, clip)`. -/
def orderCandidates (w : ClipWalker F) (R : Rng ρ F) (pool : List Oriented) (prev : Placement)
    (clip : String) (r : ρ) : List Oriented × ρ :=
  if w.priors.isNone ∧ w.bias.items = [] then shuffle R pool r
  else
    drawAll R (fun _ => false) pool.length (pool.map fun cand => (cand, w.weight prev cand clip)) r

end ClipWalker

/-! ## The search -/

/-- The arguments of `dfs`: the open port, and how many blocks stand. -/
structure ClipNode where
  wcell : Cell
  wface : Face
  clip : String
  steps : Int

/-- `placements` and `occupied`. -/
@[ext] structure ClipState where
  placements : List Placement
  occupied : Finset Cell

/-- `expansions` and the state of `self._rng`. -/
structure Volatile (ρ : Type*) where
  expansions : Int
  rng : ρ

/-- One turn of the two inner loops: a candidate and the port it is entered by. -/
structure Entering where
  cand : Oriented
  entry : Port
  /-- The position of `entry` among the ports. -/
  index : Nat

/-- `for entry in cand.ports`. -/
def Oriented.entering (cand : Oriented) : List Entering :=
  cand.ports.zipIdx.map fun (entry, index) => ⟨cand, entry, index⟩

/-- `[p for p in cand.ports if p is not entry]`. -/
def Entering.exits (m : Entering) : List Port := m.cand.ports.eraseIdx m.index

def ClipNode.target (n : ClipNode) : Cell := n.wcell + faceDelta n.wface

def Entering.anchor (m : Entering) (n : ClipNode) : Cell := n.target - m.entry.cell

def Entering.footprint (m : Entering) (n : ClipNode) : List Cell :=
  shiftAll (m.anchor n) m.cand.cells

def Entering.placement (m : Entering) (n : ClipNode) : Placement :=
  Placement.ofAnchor m.cand.blockId (m.anchor n) m.cand.rotation

/-- What is checked before the candidate's waypoint is looked at. -/
def Entering.Fits (m : Entering) (n : ClipNode) (k : ClipState) : Prop :=
  (m.entry.face = oppositeFace n.wface ∧ m.entry.clip = n.clip) ∧
    InBounds (m.footprint n) ∧ ∀ c ∈ m.footprint n, c ∉ k.occupied

instance (m : Entering) (n : ClipNode) (k : ClipState) : Decidable (m.Fits n k) :=
  inferInstanceAs (Decidable (_ ∧ _ ∧ _))

/-- Gates and boosters must face travel. -/
def Entering.FacesTravel (m : Entering) (out : Port) : Prop :=
  isDirectional m.cand.waypoint m.cand.blockId →
    rotateFace gateForwardLocalFace m.cand.rotation = out.face

instance (m : Entering) (out : Port) : Decidable (m.FacesTravel out) :=
  inferInstanceAs (Decidable (_ → _))

/-- `placements.pop(); occupied.difference_update(footprint)`. -/
def undoEntering (n : ClipNode) (m : Entering) (k : ClipState) : ClipState :=
  ⟨k.placements.dropLast, k.occupied \ (m.footprint n).toFinset⟩

/-- The body of the two inner loops of `dfs`: what is done before and after the recursive call. -/
def tryEntering (n : ClipNode) (k : ClipState) (m : Entering) : Attempt ClipState ClipNode :=
  if m.Fits n k then
    if m.cand.waypoint = "Finish" then
      if m.exits = [] then .close { k with placements := k.placements ++ [m.placement n] }
      else .skip
    else
      match m.exits with
      | [out] =>
        if m.FacesTravel out then
          .descend ⟨k.placements ++ [m.placement n], k.occupied ∪ (m.footprint n).toFinset⟩
            ⟨m.anchor n + out.cell, out.face, out.clip, n.steps + 1⟩ (undoEntering n m)
        else .skip
      | _ => .skip
  else .skip

namespace ClipWalker

variable {ρ : Type*}

/-- The pool for the next block. -/
def pool (w : ClipWalker F) (length checkpointEvery steps : Int) : List Oriented :=
  if length ≤ steps then w.finishes
  else if 0 < checkpointEvery ∧ 0 < steps ∧ steps % checkpointEvery = 0 then
    if w.checkpoints = [] then w.plain else w.checkpoints
  else w.plain

/-- `dfs` up to its loops: the budget, the pool, the order of the candidates. -/
def expand (w : ClipWalker F) (R : Rng ρ F) (length checkpointEvery maxExpansions : Int)
    (n : ClipNode) (k : ClipState) (a : Volatile ρ) :
    Except WalkError (List Entering × Volatile ρ) :=
  let expansions := a.expansions + 1
  if maxExpansions < expansions then
    .error (.routeDeadEnd s!"expansion budget exhausted after {expansions} nodes")
  else
    match k.placements.getLast? with
    | none => .error .indexError
    | some prev =>
      let (order, rng) :=
        w.orderCandidates R (w.pool length checkpointEvery n.steps) prev n.clip a.rng
      .ok (order.flatMap Oriented.entering, ⟨expansions, rng⟩)

def search (w : ClipWalker F) (R : Rng ρ F) (length checkpointEvery maxExpansions : Int) :
    Search ClipState (Volatile ρ) ClipNode Entering WalkError where
  expand := w.expand R length checkpointEvery maxExpansions
  attempt := tryEntering
  note _ a := a
  unnote a := a

/-- `generate` once the start block is chosen, with fuel for the recursion of `dfs`. -/
def generateFrom (w : ClipWalker F) (R : Rng ρ F) (length checkpointEvery maxExpansions : Int)
    (fuel : Nat) (start : Oriented) (r : ρ) : Except WalkError (List Placement) :=
  match start.ports with
  | [] => .error .indexError
  | port :: _ =>
    let k : ClipState := ⟨[Placement.ofAnchor start.blockId origin start.rotation],
      (shiftAll origin start.cells).toFinset⟩
    match (w.search R length checkpointEvery maxExpansions).dfs (.routeDeadEnd "") fuel
        ⟨origin + port.cell, port.face, port.clip, 1⟩ k ⟨0, r⟩ with
    | .found k _ => .ok k.placements
    | .raised e => .error e
    | .dead _ a =>
      let expansions := a.expansions
      .error (.routeDeadEnd
        s!"no route of length {length} found from (24, 9, 24) ({expansions} expansions)")

/-- `generate(length, checkpoint_every, max_expansions)`, from the state `r` of `self._rng`. -/
def generate (w : ClipWalker F) (R : Rng ρ F) (length checkpointEvery maxExpansions : Int)
    (r : ρ) : Except WalkError (List Placement) :=
  match choice R w.starts r with
  | (none, _) => .error .indexError
  | (some start, r) =>
    w.generateFrom R length checkpointEvery maxExpansions (maxExpansions.toNat + 1) start r

end ClipWalker

end Numbers

end TraxMania.Generation
