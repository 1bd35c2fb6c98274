import TraxMania.Constraints.ClipPorts
import TraxMania.Constraints.KeyFields
import TraxMania.Constraints.MapCounter
import TraxMania.Lib.Interning
import TraxMania.Lib.PyText

/-
  `build_grammar`: the placements of every map are read into arrays of numbers, each map is
  scanned, the counter adds up the maps, and what enough maps agree on is written to
  `block_placement_grammar`.

  The database answers the queries; a statement that writes may lose its connection. The digest of
  a signature is a parameter.
-/

namespace TraxMania.Constraints.Mining

open TraxMania.Grid TraxMania.Catalogue Lib Lib.Numpy Lib.PyText

/-! ## What is read -/

/-- A row of `block_placements`. -/
structure PlacementRow where
  blockType : String
  rotation : Int
  x : Option Int
  y : Option Int
  z : Option Int
  isFree : Bool

/-- A row that `_PLACEMENTS_SQL` returns. -/
structure GridRow where
  blockType : String
  rotation : Int
  pos : Cell
deriving DecidableEq

/-- The conditions of `_PLACEMENTS_SQL`. -/
def gridRow? (r : PlacementRow) : Option GridRow :=
  match r.isFree, r.x, r.y, r.z with
  | false, some x, some y, some z => some ⟨r.blockType, r.rotation, ⟨x, y, z⟩⟩
  | _, _, _, _ => none

/-- `type_ids` and `type_names`, never more than the key has room for. -/
structure TypeTable where
  names : Interning String
  fits : names.values.length ≤ maxTypes

/-- `type_ids`, `type_names` before the first map. -/
def TypeTable.empty : TypeTable := ⟨Interning.empty, Nat.zero_le _⟩

/-- The number of a block type, a new one if it has none. -/
def typeId (types : TypeTable) (name : String) : Except String (TypeTable × Fin maxTypes) :=
  match h : types.names.ids.get? name with
  | some tid => .ok (types, ⟨tid, Nat.lt_of_lt_of_le (Interning.lt_of_get? h) types.fits⟩)
  | none =>
    if hroom : types.names.values.length < maxTypes then
      .ok (⟨types.names.push name h, by
        show (types.names.values ++ [name]).length ≤ maxTypes
        rw [List.length_append]
        exact hroom⟩, ⟨types.names.values.length, hroom⟩)
    else .error s!"more than {maxTypes} block types; widen _TYPE_BITS"

/-- The loop over the rows of one map: `idx`, `rot`, `xs`, `ys`, `zs`. -/
def readRows (types : TypeTable) : List GridRow → Except String (TypeTable × List Row)
  | [] => .ok (types, [])
  | r :: rows => do
    let (types, tid) ← typeId types r.blockType
    let (types, read) ← readRows types rows
    return (types, ⟨tid, ⟨(r.rotation % 4).toNat, by omega⟩, r.pos⟩ :: read)

/-! ## The scan -/

/-- `GrammarReport`; nothing writes its `errors`. -/
structure GrammarReport where
  mapsSeen : Nat
  placementsSeen : Nat
  pairsCounted : Nat
  distinctKeys : Nat
  rowsWritten : Nat
  clipMatchedRows : Nat
  gapRows : Nat
  overlayRows : Nat
deriving DecidableEq

/-- What the loop over the maps carries along. -/
structure Mined where
  types : TypeTable
  counter : Counter ℕ ℕ
  report : GrammarReport

/-- Before the first map. -/
def Mined.start : Mined := ⟨TypeTable.empty, Counter.empty, ⟨0, 0, 0, 0, 0, 0, 0, 0⟩⟩

/-- One map. -/
def mineMap (t : OffsetTable) (compactEvery : Int) (s : Mined) (rows : List GridRow) :
    Except String Mined :=
  let s := { s with report := { s.report with mapsSeen := s.report.mapsSeen + 1 } }
  if rows = [] then .ok s
  else do
    let (types, read) ← readRows s.types rows
    let found := mapPairs read t
    return {
      types := types
      counter := s.counter.add compactEvery found.1 found.2
      report := { s.report with
        placementsSeen := s.report.placementsSeen + rows.length
        pairsCounted := s.report.pairsCounted + found.2.sum } }

/-- The loop over the maps. -/
def mineMaps (t : OffsetTable) (compactEvery : Int) (s : Mined) :
    List (List GridRow) → Except String Mined
  | [] => .ok s
  | rows :: maps => do mineMaps t compactEvery (← mineMap t compactEvery s rows) maps

/-- The keys that enough maps have, each with its two counts. -/
def keptEntries (minMapCount : Int) (c : Counter ℕ ℕ) : List (Int × ℕ × ℕ) :=
  (c.keys.zip (c.pairs.zip c.maps)).filter fun e => decide (minMapCount ≤ e.2.2)

/-! ## What is written -/

/-- A row of `block_placement_grammar`. -/
structure GrammarRow where
  blockA : String
  blockB : String
  offset : Cell
  relRotation : Int
  environment : String
  clipMatched : Bool
  pairCount : ℕ
  mapCount : ℕ
  createdByVersion : String
deriving DecidableEq

/-- `STAGE_VERSION`. -/
def stageVersion : String := "placement-grammar-v1"

/-- The parts of the payload of a signature. -/
def payloadParts (blockA blockB : String) (d : Cell) (relRotation : Int) (environment : String) :
    List Text :=
  [blockA.toList, blockB.toList, str d.x, str d.y, str d.z, str relRotation, environment.toList]

/-- `_pair_signature(block_a, block_b, dx, dy, dz, rel_rotation, environment)`; `sha256` is the
digest. -/
def pairSignature (sha256 : Text → Text) (blockA blockB : String) (d : Cell) (relRotation : Int)
    (environment : String) : Text :=
  sha256 (['|'].intercalate (payloadParts blockA blockB d relRotation environment))

/-- `block_placement_grammar`, by its primary key. -/
abbrev GrammarTable := Dict Text GrammarRow

/-- `_UPSERT_SQL`. -/
def upsertRow (sha256 : Text → Text) (table : GrammarTable) (row : GrammarRow) : GrammarTable :=
  table.upsert (pairSignature sha256 row.blockA row.blockB row.offset row.relRotation
    row.environment) fun
    | none => row
    | some old => { old with
      pairCount := old.pairCount + row.pairCount
      mapCount := old.mapCount + row.mapCount
      createdByVersion := row.createdByVersion }

/-- What a try of `_flush` comes to: the answer arrives, or the connection is lost before or after
the commit. -/
inductive Attempt where
  | done
  | lost
  | lostCommitted
deriving DecidableEq

/-- `_DB_RETRIES`. -/
def dbRetries : Nat := 6

/-- `_with_reconnect(conn, reconnect, run)` with `left` tries left. -/
def withReconnect {S : Type*} (canReconnect : Bool) (tries : Nat → Attempt) (run : S → S) :
    Nat → S → Except String S
  | 0, _ => .error s!"database unavailable after {dbRetries} attempts"
  | left + 1, s =>
    let again s :=
      if canReconnect then withReconnect canReconnect tries run left s
      else .error s!"database unavailable after {dbRetries} attempts"
    match tries (dbRetries - (left + 1)) with
    | .done => .ok (run s)
    | .lost => again s
    | .lostCommitted => again (run s)

/-- `xs[i]`, from the end for a negative `i`. -/
def listAt {α : Type*} (xs : List α) (i : Int) : Option α :=
  if 0 ≤ i then xs[i.toNat]?
  else if -(xs.length : Int) ≤ i then xs[(xs.length + i).toNat]? else none

/-- What the loop over the keys carries along; `flushes` counts the calls of `_flush`. -/
structure Writing where
  clipCache : Dict (Int × Int × Int × Int) Bool
  batch : List GrammarRow
  report : GrammarReport
  table : GrammarTable
  flushes : Nat

section Build

variable (sha256 : Text → Text) (canReconnect : Bool) (tries : Nat → Nat → Attempt)
variable (ports : Dict (String × Fin 4) (List Port)) (environment : String) (t : OffsetTable)
variable (names : List String)

/-- `_flush`, and `batch.clear()`. -/
def flush (s : Writing) : Except String Writing := do
  let table ← withReconnect canReconnect (tries s.flushes)
    (fun table => s.batch.foldl (upsertRow sha256) table) dbRetries s.table
  return { s with batch := [], table := table, flushes := s.flushes + 1 }

/-- The counts of the report for one more row. -/
def countRow (report : GrammarReport) (matched : Bool) (d : Cell) : GrammarReport :=
  let report := { report with rowsWritten := report.rowsWritten + 1 }
  if matched then { report with clipMatchedRows := report.clipMatchedRows + 1 }
  else if (d.x, d.y, d.z) = (0, 0, 0) then { report with overlayRows := report.overlayRows + 1 }
  else if 1 < max d.x.natAbs d.z.natAbs then { report with gapRows := report.gapRows + 1 }
  else report

/-- One key of the loop that writes. -/
def writeKey (s : Writing) (e : Int × ℕ × ℕ) : Except String Writing :=
  let (ta, tb, relRot, storedOi) := unpackKey e.1 t.size
  match listAt names ta, listAt names tb, listAt t.offsets storedOi with
  | some blockA, some blockB, some d =>
    let cacheKey := (ta, tb, relRot, storedOi)
    let matched := (s.clipCache.get? cacheKey).getD
      (clipsMeet ports blockA blockB d (Fin.ofNat 4 relRot.toNat))
    let s := { s with
      clipCache := s.clipCache.setdefault cacheKey matched
      report := countRow s.report matched d
      batch := s.batch ++ [⟨blockA, blockB, d, relRot, environment, matched, e.2.1, e.2.2,
        stageVersion⟩] }
    if 5000 ≤ s.batch.length then flush sha256 canReconnect tries s else .ok s
  | _, _, _ => .error "list index out of range"

/-- The loop that writes. -/
def writeKeys (s : Writing) : List (Int × ℕ × ℕ) → Except String Writing
  | [] => .ok s
  | e :: es => do
    writeKeys (← writeKey sha256 canReconnect tries ports environment t names s e) es

end Build

/-- What `_PLACEMENTS_SQL` returns for each map. -/
def gridMaps (maps : List (List PlacementRow)) : List (List GridRow) :=
  maps.map fun rows => rows.filterMap gridRow?

/-- `build_grammar(conn, catalogue, environment, …)` on the rows of the maps that the scan finds,
over the rows the table holds. -/
def buildGrammar (sha256 : Text → Text) (canReconnect : Bool) (tries : Nat → Nat → Attempt)
    (catalogue : Dict String BlockDef) (environment : String) (t : OffsetTable)
    (minMapCount compactEvery : Int) (maps : List (List PlacementRow)) (table : GrammarTable) :
    Except String (GrammarTable × GrammarReport) := do
  let mined ← mineMaps t compactEvery Mined.start (gridMaps maps)
  let counter := mined.counter.compact
  let report := { mined.report with distinctKeys := counter.keys.length }
  let s ← writeKeys sha256 canReconnect tries (clipPortIndex catalogue) environment t
    mined.types.names.values ⟨Dict.empty, [], report, table, 0⟩ (keptEntries minMapCount counter)
  let s ← if s.batch = [] then pure s else flush sha256 canReconnect tries s
  return (s.table, s.report)

/-! ## Reading a map -/

/-- A row of the query as the arrays have it. -/
structure Reads (names : List String) (r : GridRow) (p : Row) : Prop where
  name : names[p.typeIdx.val]? = some r.blockType
  rot : (p.rot.val : Int) = r.rotation % 4
  pos : p.pos = r.pos

theorem Reads.mono {names names' : List String} {r : GridRow} {p : Row} (h : Reads names r p)
    (hle : names <+: names') : Reads names' r p :=
  ⟨Lib.getElem?_of_prefix hle h.name, h.rot, h.pos⟩

/-- All names so far are among `corpus`. -/
def TypeTable.Within (types : TypeTable) (corpus : Finset String) : Prop :=
  ∀ name ∈ types.names.values, name ∈ corpus

section Reading

variable {corpus : Finset String}

/-- While the corpus has no more types than the key has room for, every name gets a number. -/
theorem typeId_eq_ok (hroom : corpus.card ≤ maxTypes) {types : TypeTable}
    (hwithin : types.Within corpus) {name : String} (hname : name ∈ corpus) :
    ∃ types' tid, typeId types name = .ok (types', tid) ∧
      types.names.values <+: types'.names.values ∧ types'.Within corpus ∧
      types'.names.values[tid.val]? = some name := by
  unfold typeId
  split
  · next tid h =>
    exact ⟨types, _, rfl, List.prefix_refl _, hwithin, (types.names.agree name tid).mp h⟩
  · next h =>
    have hnew : name ∉ types.names.values := Interning.notMem_of_get? h
    have hlt : types.names.values.length < maxTypes := by
      have hcard := List.toFinset_card_of_nodup types.names.values_nodup
      have hsub : types.names.values.toFinset ⊂ corpus := by
        rw [Finset.ssubset_iff_of_subset fun n hn => hwithin n (List.mem_toFinset.mp hn)]
        exact ⟨name, hname, fun hmem => hnew (List.mem_toFinset.mp hmem)⟩
      have := Finset.card_lt_card hsub
      omega
    rw [dif_pos hlt]
    refine ⟨_, _, rfl, List.prefix_append _ _, ?_, Lib.getElem?_concat_eq_some.mpr
      (Or.inr ⟨rfl, rfl⟩)⟩
    intro n hn
    rcases List.mem_append.mp hn with hn | hn
    · exact hwithin n hn
    · rw [List.mem_singleton.mp hn]
      exact hname

theorem readRows_eq_ok (hroom : corpus.card ≤ maxTypes) (rows : List GridRow)
    (hrows : ∀ r ∈ rows, r.blockType ∈ corpus) {types : TypeTable}
    (hwithin : types.Within corpus) :
    ∃ types' read, readRows types rows = .ok (types', read) ∧
      types.names.values <+: types'.names.values ∧ types'.Within corpus ∧
      List.Forall₂ (Reads types'.names.values) rows read := by
  induction rows generalizing types with
  | nil => exact ⟨types, [], rfl, List.prefix_refl _, hwithin, List.Forall₂.nil⟩
  | cons r rows ih =>
    obtain ⟨types₁, tid, htid, hle₁, hwithin₁, hget⟩ :=
      typeId_eq_ok hroom hwithin (hrows r (by simp))
    obtain ⟨types₂, read, hread, hle₂, hwithin₂, hall⟩ :=
      ih (fun r' hr' => hrows r' (by simp [hr'])) hwithin₁
    refine ⟨types₂, ⟨tid, ⟨(r.rotation % 4).toNat, by omega⟩, r.pos⟩ :: read, ?_,
      hle₁.trans hle₂, hwithin₂, List.Forall₂.cons ⟨Lib.getElem?_of_prefix hle₂ hget, ?_, rfl⟩
        hall⟩
    · unfold readRows
      rw [htid]
      dsimp only [bind, Except.bind]
      rw [hread]
      rfl
    · exact Int.toNat_of_nonneg (by omega)

end Reading

/-! ## The loop over the maps -/

/-- The call of `add` for a map that was read. -/
def callOf (t : OffsetTable) (read : List Row) : AddCall ℕ where
  keys := (mapPairs read t).1
  counts := (mapPairs read t).2
  sorted := unique_sorted _
  aligned := by
    unfold mapPairs unique
    rw [List.length_map]

/-- A map without placements has no keys. -/
theorem mapPairs_nil (t : OffsetTable) : mapPairs [] t = ([], []) := by
  have hnone : t.offsets.flatMap (offsetKeys [] t) = [] := by
    refine List.flatMap_eq_nil_iff.mpr fun off _ => ?_
    exact List.filterMap_eq_nil_iff.mpr fun ab _ => rfl
  unfold mapPairs
  rw [hnone]
  rfl

/-- What the loop has after some maps. -/
structure Mined.Good (s : Mined) (corpus : Finset String) (t : OffsetTable)
    (maps : List (List GridRow)) (reads : List (List Row)) : Prop where
  within : s.types.Within corpus
  readAll : List.Forall₂ (List.Forall₂ (Reads s.types.names.values)) maps reads
  counter : s.counter.Good (reads.map (callOf t))
  report : s.report = ⟨maps.length, (maps.map List.length).sum,
    (reads.map fun read => (mapPairs read t).2.sum).sum, 0, 0, 0, 0, 0⟩

theorem Mined.good_start (corpus : Finset String) (t : OffsetTable) :
    Mined.start.Good corpus t [] [] where
  within := fun _ h => (List.not_mem_nil h).elim
  readAll := List.Forall₂.nil
  counter := Counter.good_empty
  report := rfl

section Loop

variable {corpus : Finset String} {t : OffsetTable} {compactEvery : Int}

/-- One map is read in full and counted once. -/
theorem mineMap_eq_ok (hroom : corpus.card ≤ maxTypes) {s : Mined} {maps : List (List GridRow)}
    {reads : List (List Row)} (h : s.Good corpus t maps reads) {rows : List GridRow}
    (hrows : ∀ r ∈ rows, r.blockType ∈ corpus) :
    ∃ s' read, mineMap t compactEvery s rows = .ok s' ∧
      s'.Good corpus t (maps ++ [rows]) (reads ++ [read]) := by
  have hcounter := fun read => h.counter.add compactEvery (callOf t read)
  unfold mineMap
  dsimp only
  by_cases hempty : rows = []
  · subst hempty
    rw [if_pos rfl]
    refine ⟨_, [], rfl, h.within, List.rel_append h.readAll (.cons .nil .nil), ?_, ?_⟩
    · have hkeys : (callOf t []).keys = [] := congrArg Prod.fst (mapPairs_nil t)
      have hsame : s.counter.add compactEvery (callOf t []).keys (callOf t []).counts =
          s.counter := by
        unfold Counter.add
        rw [hkeys]
        rfl
      have hadd := hcounter []
      rw [hsame] at hadd
      rw [List.map_append]
      exact hadd
    · have hcounts : (mapPairs [] t).2.sum = 0 := by rw [mapPairs_nil, List.sum_nil]
      rw [h.report]
      simp only [List.length_append, List.map_append, List.sum_append, List.length_singleton,
        List.map_cons, List.map_nil, List.length_nil, List.sum_cons, List.sum_nil, hcounts,
        Nat.add_zero]
  · rw [if_neg hempty]
    obtain ⟨types, read, hread, hle, hwithin, hall⟩ := readRows_eq_ok hroom rows hrows h.within
    rw [hread]
    refine ⟨_, read, rfl, hwithin, List.rel_append ?_ (.cons hall .nil), ?_, ?_⟩
    · exact h.readAll.imp fun _ _ hrow => hrow.imp fun _ _ hr => hr.mono hle
    · rw [List.map_append]
      exact hcounter read
    · rw [h.report]
      simp only [List.length_append, List.map_append, List.sum_append, List.length_singleton,
        List.map_cons, List.map_nil, List.sum_cons, List.sum_nil, Nat.add_zero]

variable (compactEvery) in
theorem mineMaps_eq_ok (hroom : corpus.card ≤ maxTypes) (maps : List (List GridRow))
    (hmaps : ∀ rows ∈ maps, ∀ r ∈ rows, r.blockType ∈ corpus) {s : Mined}
    {done : List (List GridRow)} {reads : List (List Row)} (h : s.Good corpus t done reads) :
    ∃ s' reads', mineMaps t compactEvery s maps = .ok s' ∧
      s'.Good corpus t (done ++ maps) reads' := by
  induction maps generalizing s done reads with
  | nil =>
    refine ⟨s, reads, rfl, ?_⟩
    rw [List.append_nil]
    exact h
  | cons rows maps ih =>
    obtain ⟨s₁, read, hone, hgood⟩ := mineMap_eq_ok hroom h (hmaps rows (by simp))
    obtain ⟨s₂, reads₂, hrest, hgood₂⟩ := ih (fun rows' h' => hmaps rows' (by simp [h'])) hgood
    refine ⟨s₂, reads₂, ?_, ?_⟩
    · unfold mineMaps
      rw [hone]
      exact hrest
    · rw [List.append_cons]
      exact hgood₂

end Loop

/-! ## What the corpus shows -/

/-- What a row of the table is about. -/
structure Pattern where
  blockA : String
  blockB : String
  offset : Cell
  relRotation : Fin 4
deriving DecidableEq

namespace Pattern

variable (w : Pattern)

/-- The second placement is to the first as the pattern says. -/
def Shows (p q : GridRow) : Prop :=
  p.blockType = w.blockA ∧ q.blockType = w.blockB ∧
    (q.rotation - p.rotation) % 4 = w.relRotation.val ∧
    q.pos - p.pos = rotateVector w.offset p.rotation

instance (p q : GridRow) : Decidable (w.Shows p q) :=
  inferInstanceAs (Decidable (_ ∧ _ ∧ _ ∧ _))

/-- The ordered pairs of distinct placements of a map that show the pattern. -/
def pairs (rows : List GridRow) : Finset (Fin rows.length × Fin rows.length) :=
  Finset.univ.filter fun ij => ij.1 ≠ ij.2 ∧ w.Shows (rows.get ij.1) (rows.get ij.2)

/-- How many pairs of the corpus show the pattern. -/
def pairCount (maps : List (List GridRow)) : ℕ := (maps.map fun rows => (w.pairs rows).card).sum

/-- How many maps of the corpus show the pattern. -/
def mapCount (maps : List (List GridRow)) : ℕ :=
  maps.countP fun rows => decide (0 < (w.pairs rows).card)

/-- The key of the pattern under the numbers of the names. -/
structure HasKey (names : List String) (t : OffsetTable) (key : Int) : Prop where
  box : t.Box w.offset
  key : ∃ A B : Fin maxTypes, names[A.val]? = some w.blockA ∧ names[B.val]? = some w.blockB ∧
    key = packKeys A B w.relRotation.val (t.index w.offset) t.size

end Pattern

section Counting

variable {names : Interning String} {t : OffsetTable} {w : Pattern} {key : Int}

theorem shows_iff_relates {r r' : GridRow} {p p' : Row} (h : Reads names.values r p)
    (h' : Reads names.values r' p') (hbox : t.Box w.offset) {A B : Fin maxTypes}
    (hA : names.values[A.val]? = some w.blockA) (hB : names.values[B.val]? = some w.blockB) :
    Relates t A B w.relRotation w.offset p p' ↔ w.Shows r r' := by
  have hname : ∀ {r : GridRow} {p : Row} {C : Fin maxTypes} {name : String},
      Reads names.values r p → names.values[C.val]? = some name →
      (p.typeIdx = C ↔ r.blockType = name) := by
    intro r p C name hr hC
    constructor
    · rintro rfl
      exact Option.some.inj (hr.name.symm.trans hC)
    · intro heq
      have hid := (names.agree _ _).mpr hr.name
      rw [heq, (names.agree _ _).mpr hC] at hid
      exact Fin.ext (Option.some.inj hid).symm
  have hrel : relRotation p p' = w.relRotation.val ↔
      (r'.rotation - r.rotation) % 4 = w.relRotation.val := by
    have hp := h.rot
    have hp' := h'.rot
    unfold relRotation
    omega
  unfold Relates Pattern.Shows
  rw [hname h hA, hname h' hB, hrel, h.pos, h'.pos, h.rot, rotateVector_mod]
  refine and_congr_right fun _ => and_congr_right fun _ => and_congr_right fun _ => ?_
  constructor
  · exact And.right
  · intro hd
    refine ⟨?_, hd⟩
    rw [hd]
    exact OffsetTable.box_rotateVector hbox _

/-- The pairs of the arrays are the pairs of the placements. -/
theorem card_orderedPairs {rows : List GridRow} {read : List Row}
    (h : List.Forall₂ (Reads names.values) rows read) (hbox : t.Box w.offset) {A B : Fin maxTypes}
    (hA : names.values[A.val]? = some w.blockA) (hB : names.values[B.val]? = some w.blockB) :
    (orderedPairs read t A B w.relRotation w.offset).card = (w.pairs rows).card := by
  obtain ⟨hlength, hget⟩ := List.forall₂_iff_get.mp h
  refine Finset.card_equiv ((finCongr hlength.symm).prodCongr (finCongr hlength.symm)) ?_
  intro ij
  unfold orderedPairs Pattern.pairs
  rw [Finset.mem_filter, Finset.mem_filter]
  have hrelates := shows_iff_relates (hget ij.1 (by omega) ij.1.isLt)
    (hget ij.2 (by omega) ij.2.isLt) hbox hA hB
  have hsame := (finCongr hlength.symm).injective.ne_iff (x := ij.1) (y := ij.2)
  exact and_congr (iff_of_true (Finset.mem_univ _) (Finset.mem_univ _))
    (and_congr hsame.symm hrelates)

/-- The coordinates of a map leave room for the neighbourhood. -/
def GridFits (t : OffsetTable) (rows : List GridRow) : Prop := ∀ r ∈ rows, Fits t r.pos

theorem inRange_of_reads {rows : List GridRow} {read : List Row}
    (h : List.Forall₂ (Reads names.values) rows read) (hfits : GridFits t rows) :
    InRange read t := by
  induction h with
  | nil => exact fun _ hp => (List.not_mem_nil hp).elim
  | cons hr _ ih =>
    intro p hp
    rcases List.mem_cons.mp hp with rfl | hp
    · rw [hr.pos]
      exact hfits _ (by simp)
    · exact ih (fun r hr => hfits r (by simp [hr])) p hp

/-- The count of a map for the key of a pattern. -/
theorem countOf_callOf {rows : List GridRow} {read : List Row}
    (h : List.Forall₂ (Reads names.values) rows read) (hfits : GridFits t rows)
    (hfit : 2 ^ 36 * t.size ≤ 2 ^ 63) (hkey : w.HasKey names.values t key) :
    (callOf t read).countOf key = (w.pairs rows).card := by
  have hwide : 2 ^ 36 * t.size ≤ 2 ^ 64 := Nat.le_trans hfit (by decide)
  obtain ⟨A, B, hA, hB, hpack⟩ := hkey.key
  have hcount := count_eq_card (inRange_of_reads h hfits) key
  rw [hpack, keyedPairs_eq hwide A B w.relRotation hkey.box, card_orderedPairs h hkey.box hA hB,
    ← hpack] at hcount
  exact hcount

/-- A map has a key if and only if its count is not zero. -/
theorem mem_callOf_keys (read : List Row) : key ∈ (callOf t read).keys ↔
    0 < (callOf t read).countOf key := by
  have hcount : (callOf t read).countOf key = countAt (mapPairs read t) key := rfl
  have hmem : key ∈ (callOf t read).keys ↔ key ∈ t.offsets.flatMap (offsetKeys read t) :=
    mem_unique _ _
  rw [hcount, hmem]
  unfold mapPairs
  rw [countAt_unique, List.count_pos_iff]

variable {maps : List (List GridRow)} {reads : List (List Row)}

/-- The two counts that the corpus gives a pattern. -/
theorem sumOf_eq (h : List.Forall₂ (List.Forall₂ (Reads names.values)) maps reads)
    (hfits : ∀ rows ∈ maps, GridFits t rows) (hfit : 2 ^ 36 * t.size ≤ 2 ^ 63)
    (hkey : w.HasKey names.values t key) :
    sumOf (reads.map (callOf t)) key = w.pairCount maps ∧
      callsWith (reads.map (callOf t)) key = w.mapCount maps := by
  unfold sumOf callsWith Pattern.pairCount Pattern.mapCount
  induction h with
  | nil => exact ⟨rfl, rfl⟩
  | cons hrows _ ih =>
    obtain ⟨hsum, hcalls⟩ := ih fun rows' h' => hfits rows' (by simp [h'])
    have hcount := countOf_callOf hrows (hfits _ (by simp)) hfit hkey
    constructor
    · rw [List.map_cons, List.map_cons, List.sum_cons, List.map_cons, List.sum_cons, hcount, hsum]
    · rw [List.map_cons, List.countP_cons, List.countP_cons, hcalls]
      simp only [mem_callOf_keys, hcount]

end Counting

end TraxMania.Constraints.Mining
