import TraxMania.Constraints.BlockTransitions
import Mathlib.Algebra.Group.Prod
import Mathlib.Algebra.Order.Group.Nat
import Mathlib.Algebra.Order.Monoid.Prod
import Mathlib.Algebra.Order.Pi

/-
  What a map contributes to the two transition tables, as counts per primary key, and what its
  extractors and writers do when a database request fails.
-/

namespace TraxMania.Constraints

open TraxMania.Generation TraxMania.Grid Lib Lib.Txn Lib.Outcome

/-! ## Tallies -/

/-- The counts at each primary key of the two tables: transitions, and maps. -/
abbrev Tally := (PairKey → ℕ × ℕ) × (String → ℕ × ℕ)

def TransitionRow.counts {π κ : Type} (r : TransitionRow π κ) : ℕ × ℕ :=
  (r.transitionCount, r.mapCount)

def TransitionTables.tally (d : TransitionTables) : Tally :=
  (d.pairs.tally TransitionRow.counts, d.triples.tally TransitionRow.counts)

/-- What rows of pairs add. -/
def pairTotal (rows : List (TransitionRow PairKey PairKey)) : Tally :=
  (Table.total TransitionRow.primary TransitionRow.counts rows, 0)

/-- What rows of triples add. -/
def tripleTotal (rows : List (TransitionRow String TripleKey)) : Tally :=
  (0, Table.total TransitionRow.primary TransitionRow.counts rows)

/-- Statements that add the counts of their rows. -/
structure Adds {ρ : Type} (upsert : List ρ → TransitionTables → TransitionTables)
    (total : List ρ → Tally) : Prop where
  upsert : ∀ rows d, (upsert rows d).tally = d.tally + total rows
  append : ∀ rows rows', total (rows ++ rows') = total rows + total rows'
  nil : total [] = 0

theorem tally_upsertRows {π κ : Type} [DecidableEq π] (rows : List (TransitionRow π κ))
    (t : Table (TransitionRow.primary (π := π) (κ := κ))) :
    (upsertRows rows t).tally TransitionRow.counts =
      t.tally TransitionRow.counts + Table.total TransitionRow.primary TransitionRow.counts rows :=
  Table.tally_foldl_upsert (f := TransitionRow.accumulate) (fun _ _ => rfl) (fun _ _ => rfl) rows t

theorem adds_pairs : Adds TransitionTables.upsertPairs pairTotal where
  upsert rows d := by
    unfold TransitionTables.tally TransitionTables.upsertPairs pairTotal
    rw [tally_upsertRows, Prod.mk_add_mk, add_zero]
  append rows rows' := by
    unfold pairTotal
    rw [Table.total_append, Prod.mk_add_mk, add_zero]
  nil := rfl

theorem adds_triples : Adds TransitionTables.upsertTriples tripleTotal where
  upsert rows d := by
    unfold TransitionTables.tally TransitionTables.upsertTriples tripleTotal
    rw [tally_upsertRows, Prod.mk_add_mk, add_zero]
  append rows rows' := by
    unfold tripleTotal
    rw [Table.total_append, Prod.mk_add_mk, add_zero]
  nil := rfl

section

variable {ρ : Type} {upsert : List ρ → TransitionTables → TransitionTables}
  {total : List ρ → Tally}

/-- Statements one after another. -/
theorem tally_statements (h : Adds upsert total) (groups : List (List ρ)) (d : TransitionTables) :
    ((groups.map upsert).foldl (fun d f => f d) d).tally = d.tally + total groups.flatten := by
  induction groups generalizing d with
  | nil =>
      rw [List.flatten_nil, h.nil, add_zero]
      rfl
  | cons rows groups ih =>
      rw [List.map_cons, List.foldl_cons, ih, h.upsert, List.flatten_cons, h.append, add_assoc]

end

/-! ## What a map contributes -/

variable (w : BuildWorld)

/-- The counts of a map. Nothing, when its corridors cannot be read. -/
def mapContribution (mapId : Int) : Tally :=
  match countsOf w pairKeys mapId, countsOf w tripleKeys mapId with
  | .ok pairCounts, .ok tripleCounts =>
    pairTotal (pairRows w pairCounts) + tripleTotal (tripleRows w tripleCounts)
  | _, _ => 0

/-- The reads of an extractor. -/
def readRequests (mapId : Int) : Nat := if (w.corridors mapId).isEmpty then 1 else 2

/-- The statements of a writer, and its commit. -/
def writeRequests {ρ : Type} (batching : Batching ρ) (rows : List ρ) : Nat :=
  if rows.isEmpty then 0 else (batching.split rows).length + 1

/-- The requests of a map before the commit of its pairs. -/
def beforeCommit (mapId : Int) (pairCounts : Dict PairKey Nat) : Nat :=
  readRequests w mapId + 1 + (w.pairBatching.split (pairRows w pairCounts)).length

/-- All requests of a map that has pairs. -/
def mapRequests (mapId : Int) (pairCounts : Dict PairKey Nat) (tripleCounts : Dict TripleKey Nat) :
    Nat :=
  beforeCommit w mapId pairCounts + 1 +
    (readRequests w mapId + writeRequests w.tripleBatching (tripleRows w tripleCounts))

/-- The turn of a map that has pairs does no harm: it meets no fault, and nothing is left in the
    open transaction before it; or its first fault comes before the commit of its pairs, or is that
    commit and takes it back. -/
def MapHarmless (s : Session BuildError TransitionTables) (mapId : Int) : Prop :=
  s.lost.isSome ∨
    match countsOf w pairKeys mapId, countsOf w tripleKeys mapId with
    | .ok pairCounts, .ok tripleCounts =>
      pairRows w pairCounts = [] ∨
        match cutoff (mapRequests w mapId pairCounts tripleCounts) s.faults with
        | none => s.working.tally = s.committed.tally
        | some (p, f) =>
          p < beforeCommit w mapId pairCounts ∨
            p = beforeCommit w mapId pairCounts ∧ ¬ ∃ e, f = .drops e true
    | _, _ => True

/-! ## Pairs and triples -/

section

variable {κ : Type} [DecidableEq κ]
  {keysOf : (Cell → Option (String × String)) → String → List Cell → List κ} {py : Python}
  {blockAt : Cell → Option (String × String)}

theorem items_countKey_ne_nil (counts : Dict κ Nat) (k : κ) : (countKey counts k).items ≠ [] := by
  intro h
  have hmem : k ∈ (countKey counts k).keys := Dict.mem_keys_upsert.mpr (.inl rfl)
  unfold Dict.keys at hmem
  rw [h] at hmem
  cases hmem

theorem items_foldl_countKey_eq_nil (keys : List κ) (counts : Dict κ Nat) :
    (keys.foldl countKey counts).items = [] ↔ keys = [] ∧ counts.items = [] := by
  induction keys generalizing counts with
  | nil => simp
  | cons k keys ih =>
      rw [List.foldl_cons, ih]
      apply iff_of_false
      · exact fun h => items_countKey_ne_nil counts k h.2
      · exact fun h => nomatch h.1

/-- The rows can be counted when the cells of each can be read. -/
theorem returns_countCorridors_iff
    (keysOf : (Cell → Option (String × String)) → String → List Cell → List κ)
    (rows : List CorridorPath) (counts : Dict κ Nat) :
    Returns (countCorridors keysOf py blockAt rows counts) ↔
      ∀ row ∈ rows, Returns (parseCorridorCells py row.pathCells) := by
  induction rows generalizing counts with
  | nil => exact iff_of_true (returns_ok counts) nofun
  | cons row rows ih =>
      rw [countCorridors, List.forall_mem_cons]
      apply returns_bind
      intro cells _
      exact ih _

/-- Nothing is counted when no row has a key. -/
theorem items_countCorridors_eq_nil {rows : List CorridorPath} {counts counts' : Dict κ Nat}
    (h : countCorridors keysOf py blockAt rows counts = .ok counts') :
    counts'.items = [] ↔ counts.items = [] ∧
      ∀ row ∈ rows, ∀ cells, parseCorridorCells py row.pathCells = .ok cells →
        keysOf blockAt row.environment cells = [] := by
  induction rows generalizing counts with
  | nil =>
      obtain rfl := Except.ok.inj h
      exact (and_iff_left nofun).symm
  | cons row rows ih =>
      rw [countCorridors] at h
      obtain ⟨cells, hcells, hrest⟩ := bind_eq_ok.mp h
      rw [ih hrest, items_foldl_countKey_eq_nil, List.forall_mem_cons]
      constructor
      · intro ⟨⟨hkeys, hcounts⟩, hrows⟩
        refine ⟨hcounts, ?_, hrows⟩
        intro cells' hcells'
        rw [hcells] at hcells'
        rw [← Except.ok.inj hcells']
        exact hkeys
      · intro ⟨hcounts, hrow, hrows⟩
        exact ⟨⟨hrow cells hcells, hcounts⟩, hrows⟩

end

/-- A corridor without pairs has no triples. -/
theorem tripleKeys_eq_nil {blockAt : Cell → Option (String × String)} {environment : String}
    {cells : List Cell} (h : pairKeys blockAt environment cells = []) :
    tripleKeys blockAt environment cells = [] := by
  unfold pairKeys at h
  unfold tripleKeys
  rw [List.filterMap_eq_nil_iff] at h ⊢
  intro ⟨a, b, c⟩ hmem
  have hpair : (a, b) ∈ cells.zip cells.tail := by
    obtain ⟨i, hi⟩ := List.mem_iff_getElem?.mp hmem
    obtain ⟨ha, hrest⟩ := List.getElem?_zip_eq_some.mp hi
    obtain ⟨hb, -⟩ := List.getElem?_zip_eq_some.mp hrest
    exact List.mem_iff_getElem?.mpr ⟨i, List.getElem?_zip_eq_some.mpr ⟨ha, hb⟩⟩
  have hunknown := h (a, b) hpair
  dsimp only at hunknown ⊢
  cases ha : blockAt a with
  | none => rfl
  | some blockA =>
      cases hb : blockAt b with
      | none => rfl
      | some blockB =>
          rw [ha, hb] at hunknown
          cases hunknown

variable {w}

/-- Where the pairs of a map can be counted so can its triples, and there are none without pairs. -/
theorem countsOf_triples {mapId : Int} {pairCounts : Dict PairKey Nat}
    (h : countsOf w pairKeys mapId = .ok pairCounts) :
    ∃ tripleCounts, countsOf w tripleKeys mapId = .ok tripleCounts ∧
      (pairCounts.items = [] → tripleCounts.items = []) := by
  unfold countsOf at h ⊢
  by_cases hrows : (w.corridors mapId).isEmpty
  · rw [if_pos hrows]
    exact ⟨Dict.empty, rfl, fun _ => rfl⟩
  · rw [if_neg hrows] at h ⊢
    have hreads := (returns_countCorridors_iff pairKeys _ _).mp ⟨_, h⟩
    obtain ⟨tripleCounts, htriples⟩ :=
      (returns_countCorridors_iff tripleKeys _ Dict.empty).mpr hreads
    refine ⟨tripleCounts, htriples, ?_⟩
    intro hnil
    rw [items_countCorridors_eq_nil htriples]
    obtain ⟨-, hnone⟩ := (items_countCorridors_eq_nil h).mp hnil
    refine ⟨rfl, ?_⟩
    intro row hrow cells hcells
    exact tripleKeys_eq_nil (hnone row hrow cells hcells)

/-! ## The extractors -/

section

variable {κ : Type} [DecidableEq κ] {s : Session BuildError TransitionTables} {p : Nat}
  {f : Fault BuildError} {mapId : Int}

theorem perform_extract_of_none
    (keysOf : (Cell → Option (String × String)) → String → List Cell → List κ)
    (hlost : s.lost = none) (h : cutoff (readRequests w mapId) s.faults = none) :
    ∃ s', perform (extractCounts w keysOf mapId) s =
        ((countsOf w keysOf mapId).mapError .python, s') ∧
      Passed (readRequests w mapId) s s' := by
  unfold extractCounts countsOf
  by_cases hrows : (w.corridors mapId).isEmpty
  · have hreads : readRequests w mapId = 1 := if_pos hrows
    rw [hreads] at h ⊢
    obtain ⟨s', hrun, hpassed⟩ := perform_read_of_none (w.corridors mapId) hlost h
    refine ⟨s', ?_, hpassed⟩
    rw [perform_bind, hrun]
    simp only [hrows, if_true, perform_pure]
    rfl
  · have hreads : readRequests w mapId = 1 + 1 := if_neg hrows
    rw [hreads] at h ⊢
    obtain ⟨hone, htwo⟩ := cutoff_add_eq_none.mp h
    obtain ⟨s₁, hrun₁, hpassed₁⟩ := perform_read_of_none (w.corridors mapId) hlost hone
    rw [← hpassed₁.faults] at htwo
    obtain ⟨s₂, hrun₂, hpassed₂⟩ := perform_read_of_none (w.placements mapId) hpassed₁.lost htwo
    refine ⟨s₂, ?_, hpassed₁.trans hpassed₂⟩
    rw [perform_bind, hrun₁]
    simp only [hrows, if_false, Bool.false_eq_true]
    rw [perform_bind, hrun₂]
    simp only
    cases countCorridors keysOf w.py (blocksByCell (w.placements mapId)).get? (w.corridors mapId)
      Dict.empty with
    | ok counts => rfl
    | error e => rfl

theorem perform_extract_of_some
    (keysOf : (Cell → Option (String × String)) → String → List Cell → List κ)
    (hlost : s.lost = none) (h : cutoff (readRequests w mapId) s.faults = some (p, f)) :
    ∃ e s', perform (extractCounts w keysOf mapId) s = (.error e, s') ∧ Struck s s' := by
  unfold readRequests at h
  unfold extractCounts
  cases hone : cutoff 1 s.faults with
  | some c =>
      obtain ⟨s', hrun, hstruck⟩ := perform_read_of_some (w.corridors mapId) hlost hone
      refine ⟨c.2.error, s', ?_, hstruck⟩
      rw [perform_bind, hrun]
  | none =>
      obtain ⟨s₁, hrun₁, hpassed₁⟩ := perform_read_of_none (w.corridors mapId) hlost hone
      by_cases hrows : (w.corridors mapId).isEmpty
      · rw [if_pos hrows, hone] at h
        cases h
      · rw [if_neg hrows] at h
        obtain ⟨c, htwo, -⟩ :=
          Option.map_eq_some_iff.mp ((cutoff_add_of_none hone 1).symm.trans h)
        rw [← hpassed₁.faults] at htwo
        obtain ⟨s₂, hrun₂, hstruck⟩ :=
          perform_read_of_some (w.placements mapId) hpassed₁.lost htwo
        refine ⟨c.2.error, s₂, ?_, hpassed₁.struck hstruck⟩
        rw [perform_bind, hrun₁]
        simp only [hrows, if_false, Bool.false_eq_true]
        rw [perform_bind, hrun₂]

theorem perform_extract_of_lost
    (keysOf : (Cell → Option (String × String)) → String → List Cell → List κ) {e : BuildError}
    (hlost : s.lost = some e) : perform (extractCounts w keysOf mapId) s = (.error e, s) := by
  unfold extractCounts select
  rw [perform_bind, perform_request_of_lost hlost]

end

/-! ## The writers -/

section

variable {ρ : Type} {batching : Batching ρ} {upsert : List ρ → TransitionTables → TransitionTables}
  {total : List ρ → Tally} {s : Session BuildError TransitionTables} {rows : List ρ}

/-- Nothing is committed, and the open transaction has been undone or has only grown. -/
structure Grown (s s' : Session BuildError TransitionTables) : Prop where
  committed : s'.committed = s.committed
  working : s'.working = s.committed ∨ ∃ z, s'.working.tally = s.working.tally + z

theorem grown_of_struck {s s' : Session BuildError TransitionTables} (h : Struck s s') :
    Grown s s' := by
  refine ⟨h.committed, ?_⟩
  obtain hkept | hundone := h.working
  · exact .inr ⟨0, by rw [hkept, add_zero]⟩
  · exact .inl hundone

/-- The writer sends its batches and commits. -/
theorem writeRequests_eq (batching : Batching ρ)
    (upsert : List ρ → TransitionTables → TransitionTables) (hrows : ¬ rows.isEmpty) :
    writeRequests batching rows = (batches batching upsert rows).length + 1 := by
  unfold writeRequests batches
  rw [if_neg hrows, List.length_map]

/-- All rows are written and committed. -/
theorem perform_persist_of_none (hadds : Adds upsert total) (hrows : rows ≠ [])
    (hlost : s.lost = none) (h : cutoff (writeRequests batching rows) s.faults = none) :
    ∃ s', perform (persistRows batching upsert rows) s = (.ok rows.length, s') ∧
      s'.lost = none ∧ s'.faults = s.faults.drop (writeRequests batching rows) ∧
      s'.working = s'.committed ∧ s'.committed.tally = s.working.tally + total rows := by
  have hempty : ¬ rows.isEmpty := by simpa using hrows
  rw [writeRequests_eq batching upsert hempty] at h ⊢
  obtain ⟨hstmts, hcommit⟩ := cutoff_add_eq_none.mp h
  obtain ⟨s₁, hrun₁, hlost₁, hfaults₁, -, hworking₁⟩ := perform_execAll_of_none _ s hlost hstmts
  rw [← hfaults₁] at hcommit
  obtain ⟨s₂, hrun₂, hrest, hfaults₂⟩ := perform_commit_of_none hlost₁ hcommit
  refine ⟨s₂, ?_, hrest.lost, ?_, hrest.working.trans hrest.committed.symm, ?_⟩
  · unfold persistRows
    rw [if_neg hempty, perform_bind, hrun₁]
    simp only
    rw [perform_bind, hrun₂]
    rfl
  · rw [hfaults₂, hfaults₁, List.drop_drop]
  · rw [hrest.committed, hworking₁]
    unfold batches
    rw [tally_statements hadds, batching.flatten]

/-- A fault in a statement: some batches may have been written, nothing is committed. -/
theorem perform_persist_of_statement (hadds : Adds upsert total) (hrows : rows ≠ [])
    (hlost : s.lost = none) {p : Nat} {f : Fault BuildError}
    (h : cutoff (batching.split rows).length s.faults = some (p, f)) :
    ∃ e s', perform (persistRows batching upsert rows) s = (.error e, s') ∧ Grown s s' := by
  have hempty : ¬ rows.isEmpty := by simpa using hrows
  have hlength : (batching.split rows).length = (batches batching upsert rows).length :=
    (List.length_map _).symm
  rw [hlength] at h
  obtain ⟨s₁, hrun, hcommitted, hworking⟩ := perform_execAll_of_some _ s hlost h
  refine ⟨f.error, s₁, ?_, hcommitted, ?_⟩
  · unfold persistRows
    rw [if_neg hempty, perform_bind, hrun]
  · obtain hundone | hgrown := hworking
    · exact .inl hundone
    · right
      refine ⟨total ((batching.split rows).take p).flatten, ?_⟩
      rw [hgrown]
      unfold batches
      rw [← List.map_take, tally_statements hadds]

/-- A fault in the commit, which may have taken effect all the same. -/
theorem perform_persist_of_commit (hadds : Adds upsert total) (hrows : rows ≠ [])
    (hlost : s.lost = none) (hstmts : cutoff (batching.split rows).length s.faults = none)
    {q : Nat} {f : Fault BuildError}
    (h : cutoff 1 (s.faults.drop (batching.split rows).length) = some (q, f)) :
    ∃ e s', perform (persistRows batching upsert rows) s = (.error e, s') ∧
      ((¬ ∃ e, f = .drops e true) ∧ Grown s s' ∨
        (∃ e, f = .drops e true) ∧ s'.working = s'.committed ∧
          s'.committed.tally = s.working.tally + total rows) := by
  have hempty : ¬ rows.isEmpty := by simpa using hrows
  have hlength : (batching.split rows).length = (batches batching upsert rows).length :=
    (List.length_map _).symm
  rw [hlength] at hstmts h
  have hq : q = 0 := Nat.lt_one_iff.mp (cutoff_lt h)
  subst hq
  obtain ⟨s₁, hrun₁, hlost₁, hfaults₁, hcommitted₁, hworking₁⟩ :=
    perform_execAll_of_none _ s hlost hstmts
  have htally : s₁.working.tally = s.working.tally + total rows := by
    rw [hworking₁]
    unfold batches
    rw [tally_statements hadds, batching.flatten]
  rw [← hfaults₁] at h
  obtain ⟨s₂, hrun₂, hcommit⟩ := perform_commit_of_some hlost₁ h
  refine ⟨f.error, s₂, ?_, ?_⟩
  · unfold persistRows
    rw [if_neg hempty, perform_bind, hrun₁]
    simp only
    rw [perform_bind, hrun₂]
  · obtain ⟨happlied, hcommitted₂, hworking₂⟩ | ⟨hnot, hstruck⟩ := hcommit
    · right
      refine ⟨happlied, hworking₂.trans hcommitted₂.symm, ?_⟩
      rw [hcommitted₂, htally]
    · left
      refine ⟨hnot, hstruck.committed.trans hcommitted₁, ?_⟩
      obtain hkept | hundone := hstruck.working
      · exact .inr ⟨total rows, by rw [hkept, htally]⟩
      · exact .inl (hundone.trans hcommitted₁)

/-- A fault in a statement, or in the commit. -/
theorem perform_persist_of_some (hadds : Adds upsert total) (hrows : rows ≠ [])
    (hlost : s.lost = none) {p : Nat} {f : Fault BuildError}
    (h : cutoff (writeRequests batching rows) s.faults = some (p, f)) :
    ∃ e s', perform (persistRows batching upsert rows) s = (.error e, s') ∧
      ((p < (batching.split rows).length ∨
          p = (batching.split rows).length ∧ ¬ ∃ e, f = .drops e true) ∧ Grown s s' ∨
        (p = (batching.split rows).length ∧ ∃ e, f = .drops e true) ∧
          s'.working = s'.committed ∧ s'.committed.tally = s.working.tally + total rows) := by
  have hwrites : writeRequests batching rows = (batching.split rows).length + 1 :=
    if_neg (by simpa using hrows)
  rw [hwrites] at h
  cases hstmts : cutoff (batching.split rows).length s.faults with
  | some c =>
      rw [cutoff_add_of_some hstmts] at h
      obtain rfl := Option.some.inj h
      obtain ⟨e, s', hrun, hgrown⟩ := perform_persist_of_statement hadds hrows hlost hstmts
      exact ⟨e, s', hrun, .inl ⟨.inl (cutoff_lt hstmts), hgrown⟩⟩
  | none =>
      rw [cutoff_add_of_none hstmts] at h
      obtain ⟨⟨q, g⟩, hlast, heq⟩ := Option.map_eq_some_iff.mp h
      obtain ⟨rfl, rfl⟩ := Prod.mk.inj heq
      have hq : q = 0 := Nat.lt_one_iff.mp (cutoff_lt hlast)
      rw [hq, Nat.zero_add]
      obtain ⟨e, s', hrun, hend⟩ := perform_persist_of_commit hadds hrows hlost hstmts hlast
      refine ⟨e, s', hrun, ?_⟩
      obtain ⟨hnot, hgrown⟩ | ⟨happlied, hend⟩ := hend
      · exact .inl ⟨.inr ⟨rfl, hnot⟩, hgrown⟩
      · exact .inr ⟨⟨rfl, happlied⟩, hend⟩

end
end TraxMania.Constraints
