import TraxMania.Generation.AssemblyVerdict
import TraxMania.Generation.PathCells

/-
  `assemble_route`: the anchors and candidates read from the database, the validator pass over the
  top candidates of every interval, and the pure pass.
-/

namespace TraxMania.Generation.Route

open TraxMania.Grid Lib Lib.SortBy Lib.Enumerate

variable {σ : Type}

/-! ## The rows -/

/-- `CLASSIFICATION_VERSION`. -/
def classificationVersion : String := "0.1.0"

/-- A `route_corridors` row of the map. -/
structure StoredCorridor (σ : Type) where
  id : Int
  mapId : Int
  srcTag : String
  srcOrder : Int
  dstTag : String
  dstOrder : Int
  pathCells : String
  pathLength : Int
  containsVirtualEdge : Bool
  corridorConfidence : Option σ
  learnedCorridorScore : Option σ
  combinedSequenceScore : Option σ
  classificationVersion : String

/-- `_CORRIDORS_QUERY` on the rows of one map. -/
def corridorsQuery (version : String) (rows : List (StoredCorridor σ)) : List (StoredCorridor σ) :=
  rows.filter fun r => decide (r.classificationVersion = version)

/-- The candidate of a row with its cells. -/
def StoredCorridor.candidate (r : StoredCorridor σ) (cells : List Cell) : CandidateCorridor σ where
  corridorId := r.id
  mapId := r.mapId
  src := ⟨r.srcTag, r.srcOrder, none⟩
  dst := ⟨r.dstTag, r.dstOrder, none⟩
  pathCells := cells
  pathLength := r.pathLength
  containsVirtualEdge := r.containsVirtualEdge
  corridorConfidence := r.corridorConfidence
  learnedCorridorScore := r.learnedCorridorScore
  combinedSequenceScore := r.combinedSequenceScore

/-- The body of `for r in corridor_rows`. -/
def rowCandidate (py : Python) (r : StoredCorridor σ) : Except PyError (CandidateCorridor σ) :=
  (parseCells py r.pathCells).map r.candidate

def rowCandidates (py : Python) (rows : List (StoredCorridor σ)) :
    Except PyError (List (CandidateCorridor σ)) :=
  collect (fun _ => rowCandidate py) 0 rows

/-! ## The validator pass -/

/-- `validator(candidate, interval_index)`. -/
abbrev Validator (σ : Type) := CandidateCorridor σ → Nat → Option σ

/-- `_VALIDATOR_CANDIDATE_CAP`. -/
def validatorCandidateCap : Int := 10

/-- A candidate object, told apart by its place in the list. -/
abbrev CandidateObject (σ : Type) := CandidateCorridor σ × Nat

/-- `by_interval`. -/
def objectsByInterval (objects : List (CandidateObject σ)) :
    Dict IntervalKey (List (CandidateObject σ)) :=
  objects.foldl (fun d o => d.upsert o.1.intervalKey fun old => old.getD [] ++ [o]) Dict.empty

/-- `(k[1], k[3], k[0], k[2])`. -/
def intervalOrderKey (k : IntervalKey) : Int ×ₗ Int ×ₗ String ×ₗ String :=
  toLex (k.1.2, toLex (k.2.2, toLex (k.1.1, k.2.1)))

variable [Score σ]

/-- One turn of `for c in pool[:per_interval_cap]`. -/
def scoreObject (validator : Validator σ) (idx : Nat) (replacements : Dict Nat (CandidateCorridor σ))
    (o : CandidateObject σ) : Dict Nat (CandidateCorridor σ) :=
  if o.1.learnedCorridorScore.isNone then replacements
  else
    match validator o.1 idx with
    | none => replacements
    | some score => replacements.upsert o.2 fun _ => { o.1 with validationScore := some score }

/-- One turn of `for idx, key in enumerate(interval_order)`. -/
def scoreInterval (validator : Validator σ) (perIntervalCap : Nat)
    (byInterval : Dict IntervalKey (List (CandidateObject σ)))
    (replacements : Dict Nat (CandidateCorridor σ)) (entry : IntervalKey × Nat) :
    Dict Nat (CandidateCorridor σ) :=
  let pool := sortBy (fun o => tieBreakKey o.1) ((byInterval.get? entry.1).getD [])
  (pool.take perIntervalCap).foldl (scoreObject validator entry.2) replacements

/-- `_score_top_candidates_per_interval`. -/
def scoreTopCandidatesPerInterval (candidates : List (CandidateCorridor σ))
    (validator : Validator σ) (perIntervalCap : Nat) : List (CandidateCorridor σ) :=
  let objects := candidates.zipIdx
  let byInterval := objectsByInterval objects
  let intervalOrder := sortBy intervalOrderKey byInterval.keys
  let replacements :=
    intervalOrder.zipIdx.foldl (scoreInterval validator perIntervalCap byInterval) Dict.empty
  objects.map fun o => (replacements.get? o.2).getD o.1

/-- The candidates after the optional validator pass. -/
def validated (validator : Option (Validator σ)) (topKCandidates : Int)
    (candidates : List (CandidateCorridor σ)) : List (CandidateCorridor σ) :=
  match validator with
  | none => candidates
  | some validator =>
    scoreTopCandidatesPerInterval candidates validator
      (max topKCandidates validatorCandidateCap).toNat

/-! ## The wrapper -/

/-- The arguments of `assemble_route`, with the rows of the map in place of the connection. -/
structure AssembleArgs (σ : Type) where
  checkpoints : List CheckpointRow
  corridors : List (StoredCorridor σ)
  mapId : Int
  version : String := classificationVersion
  randomSeed : Int := 0
  topKCandidates : Int := 1
  validator : Option (Validator σ) := none

/-- The `AssemblyInputs` that `assemble_route` builds of the candidates. -/
def AssembleArgs.inputs (args : AssembleArgs σ) (candidates : List (CandidateCorridor σ)) :
    AssemblyInputs σ where
  mapId := args.mapId
  isLinkedCp := (detectAndOrderAnchors (anchorQuery args.checkpoints)).1
  anchors := (detectAndOrderAnchors (anchorQuery args.checkpoints)).2
  candidates := validated args.validator args.topKCandidates candidates
  randomSeed := args.randomSeed
  topKCandidates := args.topKCandidates
  useValidationTieBreak := args.validator.isSome

/-- `assemble_route`. -/
def assembleRoute (py : Python) (args : AssembleArgs σ) :
    Except PyError (Except AssemblyError (AssembledRoute σ)) := do
  let candidates ← rowCandidates py (corridorsQuery args.version args.corridors)
  return assembleRouteFromInputs py.digest (args.inputs candidates)

end TraxMania.Generation.Route
