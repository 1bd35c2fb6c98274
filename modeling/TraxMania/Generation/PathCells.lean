import TraxMania.Grid.Cell
import TraxMania.Lib.Outcome
import Mathlib.Data.Rat.Floor

/-
  The `path_cells` column: what `json.loads` makes of the text, and the cells that assembly and the
  replay evidence read out of it.
-/

namespace TraxMania.Generation

open TraxMania.Grid Lib.Enumerate

/-! ## Python values -/

/-- The exceptions that the readers of this column tell apart. -/
inductive PyError where
  | typeError
  | valueError
  /-- A subclass of `ValueError`. -/
  | jsonDecodeError
  | overflowError
  | recursionError
deriving DecidableEq

inductive JsonFloat where
  | finite (value : ℚ)
  /-- `Infinity`, or `-Infinity` for a negative one. -/
  | infinite (negative : Bool)
  | nan

/-- What `json.loads` returns. -/
inductive Json where
  | null
  | bool (b : Bool)
  | int (n : Int)
  | float (x : JsonFloat)
  | str (s : String)
  | arr (items : List Json)
  | obj (entries : List (String × Json))

/-- The functions of the standard library that read and digest texts. -/
structure Python where
  /-- `json.loads`. -/
  loads : String → Except PyError Json
  /-- `int` of a text; `none` is a `ValueError`. -/
  intOfText : String → Option Int
  /-- `hashlib.blake2b(…, digest_size=8)` of a text, as a number. -/
  digest : String → Nat

/-- `int(x)` of a finite float. -/
def truncate (x : ℚ) : Int := x.num.tdiv x.den

/-- `int(v)`. -/
def Json.toInt (py : Python) : Json → Except PyError Int
  | null => .error .typeError
  | bool b => .ok (if b then 1 else 0)
  | int n => .ok n
  | float (.finite x) => .ok (truncate x)
  | float (.infinite _) => .error .overflowError
  | float .nan => .error .valueError
  | str s =>
    match py.intOfText s with
    | some n => .ok n
    | none => .error .valueError
  | arr _ => .error .typeError
  | obj _ => .error .typeError

/-- `(int(c[0]), int(c[1]), int(c[2]))`. -/
def tripleToCell (py : Python) (a b c : Json) : Except PyError Cell := do
  let x ← a.toInt py
  let y ← b.toInt py
  let z ← c.toInt py
  return ⟨x, y, z⟩

/-- One turn of the loop over the entries: an entry that is no triple, or one for which `int`
    raises `TypeError` or `ValueError`, is skipped. -/
def entryCell (py : Python) : Json → Except PyError (Option Cell)
  | .arr [a, b, c] =>
    match tripleToCell py a b c with
    | .ok cell => .ok (some cell)
    | .error .typeError => .ok none
    | .error .valueError => .ok none
    | .error .jsonDecodeError => .ok none
    | .error e => .error e
  | _ => .ok none

def entryCells (py : Python) (entries : List Json) : Except PyError (List Cell) :=
  (collect (fun _ => entryCell py) 0 entries).map List.reduceOption

/-! ## The readers -/

/-- What `for c in data` runs over: the keys of a dictionary, the characters of a text. -/
def Json.iterate : Json → Except PyError (List Json)
  | arr items => .ok items
  | obj entries => .ok (entries.map fun kv => str kv.1)
  | str s => .ok (s.toList.map fun c => str (String.singleton c))
  | _ => .error .typeError

/-- `_parse_cells`. -/
def parseCells (py : Python) (raw : String) : Except PyError (List Cell) :=
  match py.loads raw with
  | .error .typeError => .ok []
  | .error .jsonDecodeError => .ok []
  | .error e => .error e
  | .ok data => do
    let entries ← data.iterate
    entryCells py entries

/-- `_parse_path_cells`. -/
def parsePathCells (py : Python) (raw : String) : Except PyError (List Cell) :=
  if raw = "" then .ok []
  else
    match py.loads raw with
    | .error .typeError => .ok []
    | .error .jsonDecodeError => .ok []
    | .error e => .error e
    | .ok (.arr items) => entryCells py items
    | .ok _ => .ok []

end TraxMania.Generation
