import TraxMania.Constraints.GrammarTable
import TraxMania.Generation.GateFacing

/-
  The way of the placement grammar from the table to the generator: `export-placement-grammar`
  writes the rows of one environment into a document, its offsets numbered, and
  `PlacementGrammar.from_json` reads the document. What is read is what was exported, strongest
  first; so a step of a generated route was seen in as many maps of the corpus as the thresholds on
  the way ask for.

  The document is taken as a value: writing it as JSON and reading it again is the library's.
-/

namespace TraxMania.Generation

open TraxMania.Grid TraxMania.Catalogue TraxMania.Constraints TraxMania.Constraints.Mining Lib
  Lib.SortBy

/-! ## The document -/

/-- A row of `rules`: `[b, oid, rel, maps, pairs, clip]`. -/
structure RuleRow where
  block : String
  offsetId : Int
  relRotation : Int
  mapCount : Int
  pairCount : Int
  clipMatched : Int
deriving DecidableEq

/-- The exported document. -/
structure GrammarDoc where
  schema : String
  environment : String
  minMaps : Int
  prefixes : List String
  offsets : List Cell
  rules : Dict String (List RuleRow)

/-- `SCHEMA`. -/
def grammarSchema : String := "placement_grammar_v1"

/-! ## The export -/

/-- The rows `_cmd_export_placement_grammar` selects; `like` is `LIKE` on a prefix. -/
def exported (like : String → String → Bool) (environment : String) (minMaps : Int)
    (prefixes : List String) (row : GrammarRow) : Bool :=
  decide (row.environment = environment) && decide (minMaps ≤ row.mapCount) &&
    (prefixes.isEmpty || prefixes.any fun p => like p row.blockA)

/-- What the loop over the rows carries along. -/
structure Exporting where
  offsets : Interning Cell
  rules : Dict String (List RuleRow)

/-- One row of the loop. -/
def exportRow (s : Exporting) (r : GrammarRow) : Exporting :=
  let (offsets, oid) := s.offsets.intern r.offset
  ⟨offsets, s.rules.upsert r.blockA fun old => old.getD [] ++
    [⟨r.blockB, oid, r.relRotation, r.mapCount, r.pairCount, if r.clipMatched then 1 else 0⟩]⟩

/-- `_cmd_export_placement_grammar` on the rows of the query. -/
def exportGrammar (environment : String) (minMaps : Int) (prefixes : List String)
    (rows : List GrammarRow) : GrammarDoc :=
  let s := rows.foldl exportRow ⟨Interning.empty, Dict.empty⟩
  ⟨grammarSchema, environment, minMaps, prefixes, s.offsets.values,
    s.rules.mapVal (sortBy fun m => -m.mapCount)⟩

/-! ## The loader -/

/-- `Move(block=str(b), offset=offsets[int(oid)], …)`. -/
def loadMove (offsets : List Cell) (r : RuleRow) : Except String Move :=
  match listAt offsets r.offsetId with
  | none => .error "list index out of range"
  | some off => .ok ⟨r.block, off, r.relRotation, r.mapCount, r.pairCount, r.clipMatched != 0⟩

/-- The moves of one source block. -/
def loadMoves (offsets : List Cell) : List RuleRow → Except String (List Move)
  | [] => .ok []
  | r :: rows => do return (← loadMove offsets r) :: (← loadMoves offsets rows)

/-- The loop over `doc["rules"].items()`. -/
def loadRules (offsets : List Cell) (moves : Dict String (List Move)) :
    List (String × List RuleRow) → Except String (Dict String (List Move))
  | [] => .ok moves
  | item :: items => do
    let loaded ← loadMoves offsets item.2
    loadRules offsets (moves.upsert item.1 fun _ => loaded) items

/-- `PlacementGrammar.from_json`, with the environment. -/
def fromJson (doc : GrammarDoc) : Except String (PlacementGrammar × String) :=
  if doc.schema ≠ grammarSchema then
    .error ("unsupported grammar schema: '" ++ doc.schema ++ "'")
  else do
    let moves ← loadRules doc.offsets Dict.empty doc.rules.items
    return (⟨moves⟩, doc.environment)

/-! ## What the export writes -/

/-- The move a row of the table stands for. -/
def moveOf (r : GrammarRow) : Move :=
  ⟨r.blockB, r.offset, r.relRotation, r.mapCount, r.pairCount, r.clipMatched⟩

/-- The row of the document for a row of the table, once its offset has a number. -/
def ruleOf (offsets : Interning Cell) (r : GrammarRow) : RuleRow :=
  ⟨r.blockB, ((offsets.ids.get? r.offset).getD 0 : Nat), r.relRotation, r.mapCount, r.pairCount,
    if r.clipMatched then 1 else 0⟩

/-- What the loop has after some rows: a number for every offset, and for every source block its
rows in order. -/
structure Exporting.Has (s : Exporting) (rows : List GrammarRow) : Prop where
  numbered : ∀ r ∈ rows, r.offset ∈ s.offsets.values
  rules : ∀ a, (s.rules.get? a).getD [] =
    (rows.filter fun r => decide (r.blockA = a)).map (ruleOf s.offsets)
  keys : ∀ a, a ∈ s.rules.keys ↔ ∃ r ∈ rows, r.blockA = a

/-- A number once given stays. -/
theorem ruleOf_intern {offsets : Interning Cell} (off : Cell) {r : GrammarRow}
    (h : r.offset ∈ offsets.values) : ruleOf (offsets.intern off).1 r = ruleOf offsets r := by
  obtain ⟨i, hi⟩ := List.getElem?_of_mem h
  have hi' := getElem?_of_prefix (offsets.prefix_intern off) hi
  unfold ruleOf
  rw [(offsets.agree _ _).mpr hi, ((offsets.intern off).1.agree _ _).mpr hi']

theorem exportRow_eq (s : Exporting) (r : GrammarRow) : exportRow s r =
    ⟨(s.offsets.intern r.offset).1, s.rules.upsert r.blockA fun old =>
      old.getD [] ++ [ruleOf (s.offsets.intern r.offset).1 r]⟩ := by
  have hget := ((s.offsets.intern r.offset).1.agree r.offset _).mpr
    (s.offsets.getElem?_intern r.offset)
  unfold ruleOf
  rw [hget]
  rfl

theorem Exporting.Has.step {s : Exporting} {rows : List GrammarRow} (h : s.Has rows)
    (r : GrammarRow) : (exportRow s r).Has (rows ++ [r]) := by
  have hold : ∀ a, (rows.filter fun r => decide (r.blockA = a)).map
      (ruleOf (s.offsets.intern r.offset).1) =
      (rows.filter fun r => decide (r.blockA = a)).map (ruleOf s.offsets) := fun a =>
    List.map_congr_left fun r' hr' =>
      ruleOf_intern r.offset (h.numbered r' (List.mem_of_mem_filter hr'))
  rw [exportRow_eq]
  constructor
  · intro r' hr'
    refine (Interning.mem_values_intern s.offsets).mpr ?_
    rcases List.mem_append.mp hr' with hr' | hr'
    · exact Or.inr (h.numbered r' hr')
    · rw [List.mem_singleton.mp hr']
      exact Or.inl rfl
  · intro a
    dsimp only
    rw [Dict.get?_upsert, List.filter_append, List.map_append]
    by_cases ha : a = r.blockA
    · subst ha
      rw [if_pos rfl, Option.getD_some, h.rules, ← hold, List.filter_singleton]
      simp
    · have hne : ¬ r.blockA = a := fun heq => ha heq.symm
      rw [if_neg ha, h.rules, ← hold, List.filter_singleton]
      simp [hne]
  · intro a
    rw [Dict.mem_keys_upsert, h.keys]
    simp only [List.mem_append, List.mem_singleton, or_and_right, exists_or, exists_eq_left]
    rw [or_comm, eq_comm]

/-- What the whole loop writes. -/
theorem exporting_has (rows : List GrammarRow) :
    (rows.foldl exportRow ⟨Interning.empty, Dict.empty⟩).Has rows := by
  induction rows using List.reverseRecOn with
  | nil =>
    constructor
    · intro r hr
      cases hr
    · intro a
      rfl
    · intro a
      constructor
      · intro ha
        cases ha
      · rintro ⟨r, hr, -⟩
        cases hr
  | append_singleton rows r ih =>
    rw [List.foldl_append]
    exact ih.step r

/-! ## What the loader reads -/

/-- A row whose offset has a number is read as its move. -/
theorem loadMove_ruleOf {offsets : Interning Cell} {r : GrammarRow}
    (h : r.offset ∈ offsets.values) : loadMove offsets.values (ruleOf offsets r) = .ok (moveOf r) := by
  obtain ⟨i, hi⟩ := List.getElem?_of_mem h
  unfold loadMove ruleOf
  rw [(offsets.agree _ _).mpr hi, Option.getD_some]
  dsimp only
  rw [listAt_natCast, hi]
  unfold moveOf
  cases hclip : r.clipMatched with
  | true => rfl
  | false => rfl

theorem loadMoves_map {offsets : Interning Cell} {rows : List GrammarRow}
    (h : ∀ r ∈ rows, r.offset ∈ offsets.values) :
    loadMoves offsets.values (rows.map (ruleOf offsets)) = .ok (rows.map moveOf) := by
  induction rows with
  | nil => rfl
  | cons r rows ih =>
    rw [List.map_cons, loadMoves, loadMove_ruleOf (h r (by simp)),
      ih fun r' hr' => h r' (by simp [hr'])]
    rfl

/-- Where every block's rows can be read, the loop reads them all. -/
theorem loadRules_eq_ok {offsets : List Cell} {read : String → List Move}
    {items : List (String × List RuleRow)}
    (h : ∀ item ∈ items, loadMoves offsets item.2 = .ok (read item.1))
    (moves : Dict String (List Move)) :
    loadRules offsets moves items =
      .ok (items.foldl (fun acc item => acc.upsert item.1 fun _ => read item.1) moves) := by
  induction items generalizing moves with
  | nil => rfl
  | cons item items ih =>
    unfold loadRules
    rw [h item (by simp)]
    exact ih (fun item' h' => h item' (by simp [h'])) _

/-- The moves of a block in the exported rows, strongest first. -/
def exportedMoves (rows : List GrammarRow) (a : String) : List Move :=
  sortBy (fun m => -m.mapCount) ((rows.filter fun r => decide (r.blockA = a)).map moveOf)

/-- Reading what was exported: every source block has its rows as moves, strongest first and those
of equal strength in the order of the rows, and there are no other blocks. -/
theorem fromJson_exportGrammar (environment : String) (minMaps : Int) (prefixes : List String)
    (rows : List GrammarRow) : ∃ g, fromJson (exportGrammar environment minMaps prefixes rows) =
        .ok (g, environment) ∧
      (∀ a, (g.moves.get? a).getD [] = exportedMoves rows a) ∧
      ∀ a, a ∈ g.moves.keys ↔ ∃ r ∈ rows, r.blockA = a := by
  have hhas := exporting_has rows
  generalize hs : rows.foldl exportRow ⟨Interning.empty, Dict.empty⟩ = s at hhas
  have hdoc : exportGrammar environment minMaps prefixes rows =
      ⟨grammarSchema, environment, minMaps, prefixes, s.offsets.values,
        s.rules.mapVal (sortBy fun m => -m.mapCount)⟩ := by
    rw [← hs]
    rfl
  have hkeyOf : ∀ r, (ruleOf s.offsets r).mapCount = (moveOf r).mapCount := fun _ => rfl
  have hload : ∀ item ∈ (s.rules.mapVal (sortBy fun m : RuleRow => -m.mapCount)).items,
      loadMoves s.offsets.values item.2 = .ok (exportedMoves rows item.1) := by
    intro item hitem
    obtain ⟨⟨a, old⟩, hold, rfl⟩ := List.mem_map.mp hitem
    have hrules := hhas.rules a
    rw [Dict.get?_eq_some hold, Option.getD_some] at hrules
    unfold exportedMoves
    dsimp only
    rw [hrules, sortBy_map, sortBy_map]
    refine loadMoves_map fun r hr => hhas.numbered r ?_
    exact List.mem_of_mem_filter ((mem_sortBy _ _ _).mp hr)
  have hkeys : (s.rules.mapVal (sortBy fun m : RuleRow => -m.mapCount)).keys = s.rules.keys := by
    unfold Dict.keys Dict.mapVal
    rw [List.map_map]
    rfl
  refine ⟨⟨(s.rules.mapVal (sortBy fun m => -m.mapCount)).items.foldl
    (fun acc item => acc.upsert item.1 fun _ => exportedMoves rows item.1) Dict.empty⟩, ?_, ?_, ?_⟩
  · rw [hdoc]
    unfold fromJson
    dsimp only
    rw [if_neg (not_not.mpr rfl), loadRules_eq_ok hload]
    rfl
  · intro a
    by_cases ha : a ∈ s.rules.keys
    · obtain ⟨moves, hmoves⟩ := Dict.mem_keys.mp (hkeys.symm ▸ ha)
      have hget := (@Dict.get?_foldl_of_nodup _ _ _ _ Prod.fst
        (fun item => exportedMoves rows item.1) _
        (s.rules.mapVal (sortBy fun m : RuleRow => -m.mapCount)).nodup a
        (exportedMoves rows a)).mpr ⟨_, hmoves, rfl, rfl⟩
      rw [hget]
      rfl
    · have hnone := (@Dict.get?_foldl_overwrite_eq_none_iff _ _ _ _ Prod.fst
        (fun item : String × List RuleRow => exportedMoves rows item.1)
        (s.rules.mapVal (sortBy fun m : RuleRow => -m.mapCount)).items a).mpr
        fun item hitem heq => ha (hkeys ▸ heq ▸ List.mem_map_of_mem hitem)
      have hempty : (rows.filter fun r => decide (r.blockA = a)) = [] := by
        refine List.filter_eq_nil_iff.mpr fun r hr hra => ha ?_
        exact (hhas.keys a).mpr ⟨r, hr, of_decide_eq_true hra⟩
      have hvalue : exportedMoves rows a = [] := by
        unfold exportedMoves
        rw [hempty]
        rfl
      rw [hvalue]
      exact congrArg (fun moves => Option.getD moves []) hnone
  · intro a
    rw [Dict.mem_keys_foldl, ← hhas.keys, ← hkeys]
    constructor
    · rintro (h | ⟨item, hitem, rfl⟩)
      · cases h
      · exact List.mem_map_of_mem hitem
    · intro h
      obtain ⟨moves, hmoves⟩ := Dict.mem_keys.mp h
      exact Or.inr ⟨_, hmoves, rfl⟩

/-! ## Steps the corpus attests -/

section Attested

open GrammarWalk Lib.Draw Lib.Backtrack Lib.PyText

/-- At least `n` maps of the corpus have two blocks that stand to each other as the two placements
do, and at least `gap` of them if the placements lie apart. -/
def SeenInCorpus (t : OffsetTable) (maps : List (List GridRow)) (n gap : Int)
    (p q : Placement) : Prop :=
  ∃ w : Pattern, w.Known t maps ∧ w.blockA = p.blockId ∧ w.blockB = q.blockId ∧
    q.anchor = p.anchor + rotateVector w.offset p.rotation ∧
    q.rotation = (p.rotation + w.relRotation.val) % 4 ∧ n ≤ w.mapCount maps ∧
    (1 < max w.offset.x.natAbs w.offset.z.natAbs → gap ≤ w.mapCount maps)

/-- The second placement is where a jump leads that was mined in at least `n` maps. -/
def SeenAsJump (model : Option RouteModel) (n : Int) (p q : Placement) : Prop :=
  ∃ found ∈ model, ∃ j ∈ (found.jumps.get? p.blockId).getD [], n ≤ j.mapCount ∧
    j.block = q.blockId ∧ (jumpMove j).apply p.anchor p.rotation = (q.anchor, q.rotation)

section Walk

variable {F : Type*} {w : GrammarWalker F}

/-- What a candidate is: a successor of the block in the grammar, or a mined jump. -/
theorem mem_candidates {blockId want : String} {incoming : Option Cell} {m : Move}
    (h : m ∈ w.candidates blockId want incoming) :
    (m ∈ (w.grammar.moves.get? blockId).getD [] ∧ w.minMaps ≤ m.mapCount ∧
        (m.isGap = true → w.gapMinMaps ≤ m.mapCount)) ∨
      ∃ model ∈ w.model, ∃ j ∈ (model.jumps.get? blockId).getD [], w.minMaps ≤ j.mapCount ∧
        m = jumpMove j := by
  unfold GrammarWalker.candidates at h
  rcases List.mem_append.mp h with h | h
  · obtain ⟨hsucc, hkeeps⟩ := List.mem_filter.mp (clipFirst_subset h)
    obtain ⟨hmem, hfilter⟩ := List.mem_filter.mp hsucc
    unfold GrammarWalker.keeps at hkeeps
    simp only [Bool.and_eq_true, Bool.not_eq_true', Bool.and_eq_false_iff, decide_eq_false_iff_not,
      not_lt] at hkeeps hfilter
    refine Or.inl ⟨hmem, hfilter.1.1.1, fun hgap => ?_⟩
    rcases hkeeps.2 with hno | hmany
    · rw [hgap] at hno
      cases hno
    · exact hmany
  · unfold GrammarWalker.jumpMoves at h
    split at h
    · next model _ hmodel =>
      obtain ⟨j, hj, rfl⟩ := List.mem_map.mp h
      obtain ⟨hjump, hmany⟩ := List.mem_filter.mp (List.mem_of_mem_filter hj)
      exact Or.inr ⟨model, hmodel, j, hjump, of_decide_eq_true hmany, rfl⟩
    · cases h

theorem init_fields {g : PlacementGrammar} {catalogue : Dict String BlockDef} {pool : List String}
    {o : Options F} (hw : GrammarWalker.init catalogue g pool o = .ok w) :
    w.grammar = g ∧ w.minMaps = o.minMaps ∧ w.model = o.model ∧
      w.gapMinMaps = o.gapMinMaps.getD (o.minMaps * gapMinMapsFactor) := by
  unfold GrammarWalker.init at hw
  split at hw
  · cases hw
  · dsimp only at hw
    split at hw
    · cases hw
    · split at hw
      · cases hw
      · cases hw
        exact ⟨rfl, rfl, rfl, rfl⟩

variable {ρ : Type*} [Zero F] [Add F] [Mul F] [Div F] [LE F] [DecidableLE F] [BEq F] [IntCast F]
  [OfScientific F] {R : Rng ρ F} {length checkpointEvery maxExpansions : Int}

/-- An offered landing is a candidate's, and leads to its placement. -/
theorem exists_move_of_offered {n : Node} {k : State} {l : Landing}
    (h : (w.search R length checkpointEvery maxExpansions).Offered n k l) :
    ∃ m want incoming, m ∈ w.candidates n.prev.blockId want incoming ∧
      m.block = l.placement.blockId ∧
      m.apply n.prev.anchor n.prev.rotation = (l.placement.anchor, l.placement.rotation) := by
  have happly := (landed_of_offered h).apply
  obtain ⟨a, ls, a', he, hmem⟩ := h
  obtain ⟨-, -, cs, -, hlands⟩ := expand_land he
  obtain ⟨m, hland, hm⟩ := hlands l hmem
  obtain ⟨rfl, -⟩ := land_spec hland
  rcases hm with hm | ⟨-, hm⟩
  · exact ⟨l.move, _, _, hm, rfl, happly⟩
  · exact ⟨l.move, _, _, hm, rfl, happly⟩

end Walk

section Corpus

variable {sha256 : Text → Text} {canReconnect : Bool} {tries : Nat → Nat → Attempt}
variable {blocks : Dict String BlockDef} {environment : String} {t : OffsetTable}
variable {minMapCount compactEvery minMaps : Int} {maps : List (List PlacementRow)}
variable {table : GrammarTable} {report : GrammarReport} {like : String → String → Bool}
variable {prefixes : List String} {rows : List GrammarRow} {g : PlacementGrammar}

/-- The move that the corpus makes of a pattern. -/
def corpusMove (blocks : Dict String BlockDef) (maps : List (List PlacementRow)) (w : Pattern) :
    Move :=
  ⟨w.blockB, w.offset, w.relRotation.val, w.mapCount (gridMaps maps), w.pairCount (gridMaps maps),
    clipsMeet (clipPortIndex blocks) w.blockA w.blockB w.offset w.relRotation⟩

/-- The moves of a block that were mined, exported and loaded. -/
theorem mem_moves_iff (h : Mineable sha256 canReconnect tries environment t maps)
    (hbuild : buildGrammar sha256 canReconnect tries blocks environment t minMapCount compactEvery
      maps Dict.empty = .ok (table, report))
    (hrows : rows.Perm ((table.items.map Prod.snd).filter
      (exported like environment minMaps prefixes)))
    (hload : fromJson (exportGrammar environment minMaps prefixes rows) = .ok (g, environment))
    {a : String} {m : Move} : m ∈ (g.moves.get? a).getD [] ↔
      ∃ w : Pattern, w.Known t (gridMaps maps) ∧ w.blockA = a ∧ m = corpusMove blocks maps w ∧
        0 < w.mapCount (gridMaps maps) ∧ minMapCount ≤ m.mapCount ∧ minMaps ≤ m.mapCount ∧
        (prefixes = [] ∨ ∃ p ∈ prefixes, like p a = true) := by
  obtain ⟨table', report', ws, hbuild', hknown, hmem, hitems, -⟩ :=
    buildGrammar_items blocks minMapCount compactEvery h
  obtain ⟨rfl, -⟩ := Prod.mk.inj (Except.ok.inj (hbuild.symm.trans hbuild'))
  obtain ⟨g', hload', hmoves, -⟩ := fromJson_exportGrammar environment minMaps prefixes rows
  obtain ⟨rfl, -⟩ := Prod.mk.inj (Except.ok.inj (hload.symm.trans hload'))
  have hsnd : table.items.map Prod.snd = ws.map fun w => w.row (clipPortIndex blocks) environment
      (w.pairCount (gridMaps maps)) (w.mapCount (gridMaps maps)) := by
    rw [hitems, List.map_map]
    rfl
  have hexported : ∀ w : Pattern, exported like environment minMaps prefixes
      (w.row (clipPortIndex blocks) environment (w.pairCount (gridMaps maps))
        (w.mapCount (gridMaps maps))) = true ↔
      minMaps ≤ w.mapCount (gridMaps maps) ∧
        (prefixes = [] ∨ ∃ p ∈ prefixes, like p w.blockA = true) := by
    intro w
    unfold exported Pattern.row
    simp only [Bool.and_eq_true, Bool.or_eq_true, decide_eq_true_eq, List.isEmpty_iff,
      List.any_eq_true, true_and]
  rw [hmoves]
  unfold exportedMoves
  rw [mem_sortBy, List.mem_map]
  constructor
  · rintro ⟨r, hr, rfl⟩
    obtain ⟨hr, hblock⟩ := List.mem_filter.mp hr
    obtain ⟨hr, hexp⟩ := List.mem_filter.mp (hrows.mem_iff.mp hr)
    rw [hsnd] at hr
    obtain ⟨w, hw, rfl⟩ := List.mem_map.mp hr
    obtain rfl : w.blockA = a := of_decide_eq_true hblock
    obtain ⟨hmany, hlike⟩ := (hexported w).mp hexp
    obtain ⟨hshown, hkept⟩ := (hmem w (hknown w hw)).mp hw
    exact ⟨w, hknown w hw, rfl, rfl, hshown, hkept, hmany, hlike⟩
  · rintro ⟨w, hw, rfl, rfl, hshown, hkept, hmany, hlike⟩
    refine ⟨_, List.mem_filter.mpr ⟨hrows.mem_iff.mpr (List.mem_filter.mpr
      ⟨?_, (hexported w).mpr ⟨hmany, hlike⟩⟩), decide_eq_true rfl⟩, rfl⟩
    rw [hsnd]
    exact List.mem_map_of_mem ((hmem w hw).mpr ⟨hshown, hkept⟩)

/-- The grammar of a corpus: mining, export and loading succeed, and the successors of a block are,
strongest first, the patterns that enough maps of the corpus show, as far as the filters of the
export and of the call let them through. -/
theorem successors_of_corpus (h : Mineable sha256 canReconnect tries environment t maps) :
    ∃ table report, buildGrammar sha256 canReconnect tries blocks environment t minMapCount
        compactEvery maps Dict.empty = .ok (table, report) ∧
      ∀ rows : List GrammarRow, rows.Perm ((table.items.map Prod.snd).filter
          (exported like environment minMaps prefixes)) →
        ∃ g, fromJson (exportGrammar environment minMaps prefixes rows) = .ok (g, environment) ∧
          ∀ a n allow overlays gaps,
            (g.successors a n allow overlays gaps).Pairwise (fun m m' => m'.mapCount ≤ m.mapCount) ∧
            ∀ m, m ∈ g.successors a n allow overlays gaps ↔
              (∃ w : Pattern, w.Known t (gridMaps maps) ∧ w.blockA = a ∧ m = corpusMove blocks maps w ∧
                0 < w.mapCount (gridMaps maps) ∧ minMapCount ≤ m.mapCount ∧ minMaps ≤ m.mapCount ∧
                (prefixes = [] ∨ ∃ p ∈ prefixes, like p a = true)) ∧
              n ≤ m.mapCount ∧ m.block ∈ allow ∧ overlays.all (m.isOverlay == ·) ∧
              gaps.all (m.isGap == ·) := by
  obtain ⟨table, report, ws, hbuild, -⟩ :=
    buildGrammar_items blocks minMapCount compactEvery h
  refine ⟨table, report, hbuild, fun rows hrows => ?_⟩
  obtain ⟨g, hload, hmoves, -⟩ := fromJson_exportGrammar environment minMaps prefixes rows
  refine ⟨g, hload, fun a n allow overlays gaps => ⟨?_, fun m => ?_⟩⟩
  · unfold PlacementGrammar.successors
    rw [hmoves]
    have hsorted : (exportedMoves rows a).Pairwise fun m m' => -m.mapCount ≤ -m'.mapCount :=
      sortBy_pairwise _ _
    exact (hsorted.imp fun hle => Int.neg_le_neg_iff.mp hle).filter _
  · unfold PlacementGrammar.successors
    rw [List.mem_filter, mem_moves_iff h hbuild hrows hload]
    refine and_congr_right fun _ => ?_
    simp only [Bool.and_eq_true, Bool.not_eq_true', decide_eq_false_iff_not, decide_eq_true_eq,
      not_lt, and_assoc]

variable {F ρ : Type*} [Zero F] [Add F] [Mul F] [Div F] [LE F] [DecidableLE F] [BEq F] [IntCast F]
  [OfScientific F] {R : Rng ρ F} {w : GrammarWalker F} {catalogue : Dict String BlockDef}
  {pool : List String} {o : Options F} {seeded : String → ρ}
  {length checkpointEvery maxExpansions total : Int} {route : List Placement}

/-- A grammar that was mined from a corpus, exported and loaded: in every route that the walker
returns, two placements that follow each other stand as two blocks do in at least as many maps of
the corpus as the miner, the export and the walker ask for, or as a mined jump does. -/
theorem route_seen_in_corpus (h : Mineable sha256 canReconnect tries environment t maps)
    (hbuild : buildGrammar sha256 canReconnect tries blocks environment t minMapCount compactEvery
      maps Dict.empty = .ok (table, report))
    (hrows : rows.Perm ((table.items.map Prod.snd).filter
      (exported like environment minMaps prefixes)))
    (hload : fromJson (exportGrammar environment minMaps prefixes rows) = .ok (g, environment))
    (hw : GrammarWalker.init catalogue g pool o = .ok w)
    (hroute : w.generate R seeded length checkpointEvery maxExpansions total = .ok route) :
    route.IsChain fun p q =>
      SeenInCorpus t (gridMaps maps) (max (max minMapCount minMaps) o.minMaps)
          (o.gapMinMaps.getD (o.minMaps * gapMinMapsFactor)) p q ∨
        SeenAsJump o.model o.minMaps p q := by
  obtain ⟨rfl, hmin, hmodel, hgapMin⟩ := init_fields hw
  refine attempts_isChain (fun {n k l} hoffered => ?_) hroute
  obtain ⟨m, want, incoming, hm, hblock, happly⟩ := exists_move_of_offered hoffered
  rcases mem_candidates hm with ⟨hmove, hmany, hgap⟩ | ⟨model, hfound, j, hj, hmany, rfl⟩
  · obtain ⟨pat, hknown, hA, rfl, -, hmined, hexported, -⟩ :=
      (mem_moves_iff h hbuild hrows hload).mp hmove
    obtain ⟨hanchor, hrotation⟩ := Prod.mk.inj happly
    rw [hmin] at hmany
    rw [hgapMin] at hgap
    refine Or.inl ⟨pat, hknown, hA, hblock, hanchor.symm, hrotation.symm, ?_, fun hfar => ?_⟩
    · exact max_le (max_le hmined hexported) hmany
    · exact hgap (decide_eq_true hfar)
  · rw [hmodel] at hfound
    rw [hmin] at hmany
    exact Or.inr ⟨model, hfound, j, hj, hmany, hblock, happly⟩

end Corpus

/-! ## Three blocks in a row, in one map -/

def rowMaps : List (List PlacementRow) :=
  [[⟨"S", 0, some 5, some 9, some 5, false⟩, ⟨"B", 0, some 5, some 9, some 6, false⟩,
    ⟨"F", 0, some 5, some 9, some 7, false⟩]]

/-- The rows that the map leaves in the table, at radius 1. -/
def minedRows : List GrammarRow :=
  [⟨"S", "B", ⟨0, 0, 1⟩, 0, "Stadium2020", false, 1, 1, stageVersion⟩,
    ⟨"B", "S", ⟨0, 0, -1⟩, 0, "Stadium2020", false, 1, 1, stageVersion⟩,
    ⟨"B", "F", ⟨0, 0, 1⟩, 0, "Stadium2020", false, 1, 1, stageVersion⟩,
    ⟨"F", "B", ⟨0, 0, -1⟩, 0, "Stadium2020", false, 1, 1, stageVersion⟩]

def minedTable : GrammarTable :=
  ⟨minedRows.map fun r => (pairSignature id r.blockA r.blockB r.offset r.relRotation r.environment,
    r), by decide⟩

def minedGrammar : PlacementGrammar :=
  ⟨⟨[("S", [⟨"B", ⟨0, 0, 1⟩, 0, 1, 1, false⟩]),
    ("B", [⟨"S", ⟨0, 0, -1⟩, 0, 1, 1, false⟩, ⟨"F", ⟨0, 0, 1⟩, 0, 1, 1, false⟩]),
    ("F", [⟨"B", ⟨0, 0, -1⟩, 0, 1, 1, false⟩])], by decide⟩⟩

def minedOptions : Options Rat :=
  ⟨7, 1, false, none, Dict.empty, true, ["B"], none, 0.04, none, 1.0⟩

def minedWalker : GrammarWalker Rat :=
  ⟨7, minedGrammar, 1, false, 10, Dict.empty,
    allowed minedGrammar rowTables.waypoint ["S", "B", "F"] minedOptions, ["B"], none, 0.04, none,
    1.0, rowTables.cells, rowTables.waypoint, ["S"], ["F"]⟩

theorem mineable_rowMaps :
    Mineable id true (fun _ _ => .done) "Stadium2020" ⟨1, 0⟩ rowMaps where
  room := by decide
  fits := by
    unfold GridFits Fits
    decide
  fit := by
    rw [OffsetTable.size_eq]
    decide
  bar := by
    unfold BarFree
    decide
  sha := Set.injOn_id _
  delivers := fun _ =>
    ⟨0, by decide, rfl, fun _ hj => (Nat.not_lt_zero _ hj).elim, fun h => absurd h (by decide)⟩

theorem successors_of_corpus_row :
    ∃ table report, buildGrammar id true (fun _ _ => .done) rowCatalogue "Stadium2020" ⟨1, 0⟩ 1
        4000000 rowMaps Dict.empty = .ok (table, report) ∧
      ∀ rows : List GrammarRow, rows.Perm ((table.items.map Prod.snd).filter
          (exported (fun _ _ => true) "Stadium2020" 1 [])) →
        ∃ g, fromJson (exportGrammar "Stadium2020" 1 [] rows) = .ok (g, "Stadium2020") ∧
          ∀ a n allow overlays gaps,
            (g.successors a n allow overlays gaps).Pairwise (fun m m' => m'.mapCount ≤ m.mapCount) ∧
            ∀ m, m ∈ g.successors a n allow overlays gaps ↔
              (∃ w : Pattern, w.Known ⟨1, 0⟩ (gridMaps rowMaps) ∧ w.blockA = a ∧
                m = corpusMove rowCatalogue rowMaps w ∧ 0 < w.mapCount (gridMaps rowMaps) ∧
                1 ≤ m.mapCount ∧ 1 ≤ m.mapCount ∧
                (([] : List String) = [] ∨ ∃ p ∈ ([] : List String), true = true)) ∧
              n ≤ m.mapCount ∧ m.block ∈ allow ∧ overlays.all (m.isOverlay == ·) ∧
              gaps.all (m.isGap == ·) :=
  successors_of_corpus mineable_rowMaps

theorem route_seen_in_corpus_row : rowRoute.IsChain fun p q =>
    SeenInCorpus ⟨1, 0⟩ (gridMaps rowMaps) 1 10 p q ∨ SeenAsJump none 1 p q := by
  have hbuild : buildGrammar id true (fun _ _ => .done) rowCatalogue "Stadium2020" ⟨1, 0⟩ 1 4000000
      rowMaps Dict.empty = .ok (minedTable, ⟨1, 3, 4, 4, 4, 0, 0, 0⟩) := by decide +kernel
  have hrows : minedRows.Perm ((minedTable.items.map Prod.snd).filter
      (exported (fun _ _ => true) "Stadium2020" 1 [])) := List.Perm.refl _
  have hload : fromJson (exportGrammar "Stadium2020" 1 [] minedRows) =
      .ok (minedGrammar, "Stadium2020") := by rfl
  have hw : GrammarWalker.init rowCatalogue minedGrammar ["S", "B", "F"] minedOptions =
      .ok minedWalker := by rfl
  have hroute : minedWalker.generate lowestDraws (fun _ => ()) 2 12 100 24 = .ok rowRoute := by
    decide +kernel
  exact route_seen_in_corpus mineable_rowMaps hbuild hrows hload hw hroute

end Attested

end TraxMania.Generation
