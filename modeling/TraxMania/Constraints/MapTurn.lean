import TraxMania.Constraints.TransitionTallies
import Mathlib.Tactic.Abel

/-
  One turn of the loop over the maps: what it commits, what it leaves in the open transaction, and
  whether it is harmless, at every position of its first fault.
-/

namespace TraxMania.Constraints

open Lib Lib.Txn

variable {w : BuildWorld}

/-! ## One map -/

section

variable {s : Session BuildError TransitionTables} {mapId : Int} {tripleCounts : Dict TripleKey Nat}

/-- The triples of a turn, with the results of its two parts. -/
theorem perform_buildTriples (report : BuildReport) (mapId : Int)
    (s : Session BuildError TransitionTables) :
    perform (buildTriples w report mapId) s =
      match perform (extractTripleCountsForMap w mapId) s with
      | (.error e, s₁) => (.ok (report.fail mapId e), s₁)
      | (.ok tripleCounts, s₁) =>
        match perform (persistTripleCounts w tripleCounts) s₁ with
        | (.error e, s₂) => (.ok (report.fail mapId e), s₂)
        | (.ok written, s₂) =>
          (.ok { report with
            triplesWritten := report.triplesWritten + written
            tripleTransitionsCounted := report.tripleTransitionsCounted + sumCounts tripleCounts },
            s₂) := by
  unfold buildTriples
  rw [perform_bind, perform_attempt]
  rcases perform (extractTripleCountsForMap w mapId) s with ⟨e | tripleCounts, s₁⟩
  · rfl
  · simp only
    rw [perform_bind, perform_attempt]
    rcases perform (persistTripleCounts w tripleCounts) s₁ with ⟨e | written, s₂⟩
    · rfl
    · rfl

/-- The triples of a map that has none. -/
theorem buildTriples_of_nil (report : BuildReport)
    (hcounts : countsOf w tripleKeys mapId = .ok tripleCounts)
    (hnil : tripleRows w tripleCounts = []) (hlost : s.lost = none)
    (h : cutoff (readRequests w mapId) s.faults = none) :
    ∃ report' s', perform (buildTriples w report mapId) s = (.ok report', s') ∧
      report'.errors = report.errors ∧ Passed (readRequests w mapId) s s' := by
  obtain ⟨s', hrun, hpassed⟩ := perform_extract_of_none tripleKeys hlost h
  rw [hcounts] at hrun
  rw [perform_buildTriples, extractTripleCountsForMap, hrun]
  simp only [Except.mapError, persistTripleCounts, persistRows, hnil]
  exact ⟨_, s', rfl, rfl, hpassed⟩

/-- The triples of a map, without a fault. -/
theorem buildTriples_of_none (report : BuildReport)
    (hcounts : countsOf w tripleKeys mapId = .ok tripleCounts) (hlost : s.lost = none)
    (hrest : s.working = s.committed)
    (h : cutoff (readRequests w mapId +
      writeRequests w.tripleBatching (tripleRows w tripleCounts)) s.faults = none) :
    ∃ report' s', perform (buildTriples w report mapId) s = (.ok report', s') ∧
      report'.errors = report.errors ∧ s'.lost = none ∧
      s'.faults = s.faults.drop (readRequests w mapId +
        writeRequests w.tripleBatching (tripleRows w tripleCounts)) ∧
      s'.working = s'.committed ∧
      s'.committed.tally = s.committed.tally + tripleTotal (tripleRows w tripleCounts) := by
  obtain ⟨hreads, hwrites⟩ := cutoff_add_eq_none.mp h
  by_cases hnil : tripleRows w tripleCounts = []
  · obtain ⟨report', s', hrun, herrors, hpassed⟩ :=
      buildTriples_of_nil report hcounts hnil hlost hreads
    refine ⟨report', s', hrun, herrors, hpassed.lost, ?_, ?_, ?_⟩
    · rw [hnil]
      exact hpassed.faults
    · rw [hpassed.working, hpassed.committed, hrest]
    · rw [hnil, hpassed.committed, adds_triples.nil, add_zero]
  · obtain ⟨s₁, hrun₁, hpassed⟩ := perform_extract_of_none tripleKeys hlost hreads
    rw [hcounts] at hrun₁
    rw [← hpassed.faults] at hwrites
    obtain ⟨s₂, hrun₂, hlost₂, hfaults₂, hrest₂, htally⟩ :=
      perform_persist_of_none adds_triples hnil hpassed.lost hwrites
    rw [perform_buildTriples, extractTripleCountsForMap, hrun₁]
    simp only [Except.mapError, persistTripleCounts, hrun₂]
    refine ⟨_, s₂, rfl, rfl, hlost₂, ?_, hrest₂, ?_⟩
    · rw [hfaults₂, hpassed.faults, List.drop_drop]
    · rw [htally, hpassed.working, hrest]

/-- The triples of a map with a fault. What is committed may have grown, but not without triples. -/
theorem buildTriples_of_some (report : BuildReport)
    (hcounts : countsOf w tripleKeys mapId = .ok tripleCounts) (hlost : s.lost = none)
    {y : Tally} (hopen : s.working.tally = s.committed.tally + y) {c : Nat × Fault BuildError}
    (h : cutoff (readRequests w mapId +
      writeRequests w.tripleBatching (tripleRows w tripleCounts)) s.faults = some c) :
    ∃ e report' s', perform (buildTriples w report mapId) s = (.ok report', s') ∧
      report'.errors = report.errors ++ [(mapId, e)] ∧
      ∃ x y', s'.committed.tally = s.committed.tally + x ∧
        s'.working.tally = s'.committed.tally + y' ∧
        (tripleRows w tripleCounts = [] → x = 0) := by
  rw [perform_buildTriples, extractTripleCountsForMap]
  cases hreads : cutoff (readRequests w mapId) s.faults with
  | some c' =>
      obtain ⟨e, s₁, hrun₁, hstruck⟩ := perform_extract_of_some tripleKeys hlost hreads
      rw [hrun₁]
      refine ⟨e, _, s₁, rfl, rfl, 0, ?_⟩
      rw [hstruck.committed]
      obtain hkept | hundone := hstruck.working
      · exact ⟨y, (add_zero _).symm, by rw [hkept, hopen], fun _ => rfl⟩
      · exact ⟨0, (add_zero _).symm, by rw [hundone, add_zero], fun _ => rfl⟩
  | none =>
      obtain ⟨s₁, hrun₁, hpassed⟩ := perform_extract_of_none tripleKeys hlost hreads
      rw [cutoff_add_of_none hreads, ← hpassed.faults] at h
      obtain ⟨⟨p, f⟩, hwrites, -⟩ := Option.map_eq_some_iff.mp h
      have hrows : tripleRows w tripleCounts ≠ [] := by
        intro hnil
        rw [hnil] at hwrites
        simp [writeRequests] at hwrites
      rw [hcounts] at hrun₁
      obtain ⟨e, s₂, hrun₂, hcases⟩ :=
        perform_persist_of_some adds_triples hrows hpassed.lost hwrites
      rw [hrun₁]
      simp only [Except.mapError, persistTripleCounts, hrun₂]
      refine ⟨e, _, s₂, rfl, rfl, ?_⟩
      obtain ⟨-, hgrown⟩ | ⟨-, hrest, htally⟩ := hcases
      · refine ⟨0, ?_⟩
        rw [hgrown.committed, hpassed.committed]
        obtain hundone | ⟨z, hz⟩ := hgrown.working
        · refine ⟨0, (add_zero _).symm, ?_, fun _ => rfl⟩
          rw [hundone, hpassed.committed, add_zero]
        · refine ⟨y + z, (add_zero _).symm, ?_, fun _ => rfl⟩
          rw [hz, hpassed.working, hopen, add_assoc]
      · refine ⟨y + tripleTotal (tripleRows w tripleCounts), 0, ?_, ?_, fun h => absurd h hrows⟩
        · rw [htally, hpassed.working, hopen, add_assoc]
        · rw [hrest, add_zero]

/-- One turn of the loop, with the results of its parts. -/
theorem perform_buildMap (report : BuildReport) (mapId : Int)
    (s : Session BuildError TransitionTables) :
    perform (buildMap w true report mapId) s =
      match perform (extractPairCountsForMap w mapId) s with
      | (.error e, s₁) => (.ok (report.fail mapId e), s₁)
      | (.ok pairCounts, s₁) =>
        match perform (select fun _ => (w.corridors mapId).length) s₁ with
        | (.error e, s₂) => (.ok (report.fail mapId e), s₂)
        | (.ok corridors, s₂) =>
          match perform (persistPairCounts w pairCounts) s₂ with
          | (.error e, s₃) =>
            (.ok (BuildReport.fail { report with
              corridorsSeen := report.corridorsSeen + corridors } mapId e), s₃)
          | (.ok written, s₃) =>
            perform (buildTriples w { report with
                corridorsSeen := report.corridorsSeen + corridors
                pairsWritten := report.pairsWritten + written
                transitionsCounted := report.transitionsCounted + sumCounts pairCounts }
              mapId) s₃ := by
  unfold buildMap
  rw [perform_bind, perform_attempt]
  rcases perform (extractPairCountsForMap w mapId) s with ⟨e | pairCounts, s₁⟩
  · rfl
  · simp only
    rw [perform_bind, perform_attempt]
    rcases perform (select fun _ => (w.corridors mapId).length) s₁ with ⟨e | corridors, s₂⟩
    · rfl
    · simp only
      rw [perform_bind, perform_attempt]
      rcases perform (persistPairCounts w pairCounts) s₂ with ⟨e | written, s₃⟩
      · rfl
      · rfl

/-- Nothing goes wrong any more, and nothing is left in the open transaction. -/
structure Quiet (s : Session BuildError TransitionTables) : Prop where
  lost : s.lost = none
  faults : s.faults = []
  settled : s.working.tally = s.committed.tally

theorem not_quiet_of_some {n : Nat} {c : Nat × Fault BuildError}
    (h : cutoff n s.faults = some c) : ¬ Quiet s := by
  intro hs
  rw [hs.faults, cutoff_nil] at h
  cases h

/-- What the turn of a map adds: its contribution, unless it fails, and something else (`x`) unless
    it is harmless; `y` is left in the open transaction. -/
structure Turn (w : BuildWorld) (mapId : Int) (errors : List (Int × BuildError))
    (s : Session BuildError TransitionTables) (errors' : List (Int × BuildError))
    (s' : Session BuildError TransitionTables) : Prop where
  added : ∃ x y, (x = 0 ↔ MapHarmless w s mapId) ∧ s'.working.tally = s'.committed.tally + y ∧
    ((∃ e, errors' = errors ++ [(mapId, e)]) ∧ s'.committed.tally = s.committed.tally + x ∨
      errors' = errors ∧ s'.committed.tally = s.committed.tally + mapContribution w mapId + x)
  quiet : Quiet s → Quiet s' ∧ s'.committed.tally = s.committed.tally + mapContribution w mapId

/-- A turn that fails with nothing committed. -/
theorem turn_of_grown {errors : List (Int × BuildError)}
    {s s' : Session BuildError TransitionTables} (e : BuildError) {y : Tally}
    (hopen : s.working.tally = s.committed.tally + y)
    (hgrown : Grown s s') (hharmless : MapHarmless w s mapId)
    (hquiet : Quiet s → Quiet s' ∧ mapContribution w mapId = 0) :
    Turn w mapId errors s (errors ++ [(mapId, e)]) s' := by
  constructor
  · refine ⟨0, ?_⟩
    rw [hgrown.committed]
    obtain hundone | ⟨z, hz⟩ := hgrown.working
    · refine ⟨0, iff_of_true rfl hharmless, ?_, .inl ⟨⟨e, rfl⟩, (add_zero _).symm⟩⟩
      rw [hundone, add_zero]
    · refine ⟨y + z, iff_of_true rfl hharmless, ?_, .inl ⟨⟨e, rfl⟩, (add_zero _).symm⟩⟩
      rw [hz, hopen, add_assoc]
  · intro hs
    obtain ⟨hs', hzero⟩ := hquiet hs
    refine ⟨hs', ?_⟩
    rw [hgrown.committed, hzero, add_zero]

/-- A turn that only reads, on a map that contributes nothing. -/
theorem turn_of_passed {errors : List (Int × BuildError)}
    {s s' : Session BuildError TransitionTables} {n : Nat} {y : Tally}
    (hopen : s.working.tally = s.committed.tally + y) (hpassed : Passed n s s')
    (hharmless : MapHarmless w s mapId) (hzero : mapContribution w mapId = 0) :
    Turn w mapId errors s errors s' := by
  have hcommitted : s'.committed.tally = s.committed.tally + mapContribution w mapId := by
    rw [hpassed.committed, hzero, add_zero]
  refine ⟨⟨0, y, iff_of_true rfl hharmless, ?_, .inr ⟨rfl, ?_⟩⟩, fun hs => ⟨?_, hcommitted⟩⟩
  · rw [hpassed.working, hpassed.committed, hopen]
  · rw [hcommitted, add_zero]
  · refine ⟨hpassed.lost, ?_, ?_⟩
    · rw [hpassed.faults, hs.faults, List.drop_nil]
    · rw [hpassed.working, hpassed.committed, hs.settled]

/-- A map whose corridors cannot be read, or that comes when the connection is lost. -/
theorem buildMap_of_raise {report : BuildReport} {y : Tally}
    (hopen : s.working.tally = s.committed.tally + y)
    (h : s.lost.isSome ∨ ∃ e, countsOf w pairKeys mapId = .error e) :
    ∃ report' s', perform (buildMap w true report mapId) s = (.ok report', s') ∧
      Turn w mapId report.errors s report'.errors s' := by
  rw [perform_buildMap, extractPairCountsForMap]
  cases hlost : s.lost with
  | some e =>
      rw [perform_extract_of_lost pairKeys hlost]
      refine ⟨_, s, rfl, turn_of_grown e hopen ⟨rfl, .inr ⟨0, (add_zero _).symm⟩⟩ (.inl ?_) ?_⟩
      · rw [hlost]
        rfl
      · intro hs
        exact absurd (hs.lost.symm.trans hlost) nofun
  | none =>
      obtain ⟨e, herror⟩ : ∃ e, countsOf w pairKeys mapId = .error e := by
        obtain hsome | herror := h
        · rw [hlost] at hsome
          cases hsome
        · exact herror
      have hharmless : MapHarmless w s mapId := by
        right
        rw [herror]
        trivial
      have hzero : mapContribution w mapId = 0 := by
        unfold mapContribution
        rw [herror]
      cases hreads : cutoff (readRequests w mapId) s.faults with
      | some c =>
          obtain ⟨e', s₁, hrun, hstruck⟩ := perform_extract_of_some pairKeys hlost hreads
          rw [hrun]
          refine ⟨_, s₁, rfl, turn_of_grown e' hopen (grown_of_struck hstruck) hharmless ?_⟩
          exact fun hs => absurd hs (not_quiet_of_some hreads)
      | none =>
          obtain ⟨s₁, hrun, hpassed⟩ := perform_extract_of_none pairKeys hlost hreads
          rw [herror] at hrun
          rw [hrun]
          have hgrown : Grown s s₁ := by
            refine ⟨hpassed.committed, .inr ⟨0, ?_⟩⟩
            rw [hpassed.working, add_zero]
          refine ⟨_, s₁, rfl, turn_of_grown (.python e) hopen hgrown hharmless ?_⟩
          intro hs
          refine ⟨⟨hpassed.lost, ?_, ?_⟩, hzero⟩
          · rw [hpassed.faults, hs.faults, List.drop_nil]
          · rw [hpassed.working, hpassed.committed, hs.settled]

variable {pairCounts : Dict PairKey Nat}

/-- A fault in one of the reads before the pairs are written. -/
theorem buildMap_of_read_fault (report : BuildReport)
    (hcounts : countsOf w pairKeys mapId = .ok pairCounts) (hlost : s.lost = none)
    {c : Nat × Fault BuildError} (h : cutoff (readRequests w mapId + 1) s.faults = some c) :
    ∃ e report' s', perform (buildMap w true report mapId) s = (.ok report', s') ∧
      report'.errors = report.errors ++ [(mapId, e)] ∧ Struck s s' := by
  rw [perform_buildMap, extractPairCountsForMap]
  cases hreads : cutoff (readRequests w mapId) s.faults with
  | some c' =>
      obtain ⟨e, s₁, hrun, hstruck⟩ := perform_extract_of_some pairKeys hlost hreads
      rw [hrun]
      exact ⟨e, _, s₁, rfl, rfl, hstruck⟩
  | none =>
      obtain ⟨s₁, hrun, hpassed⟩ := perform_extract_of_none pairKeys hlost hreads
      rw [cutoff_add_of_none hreads, ← hpassed.faults] at h
      obtain ⟨⟨p, f⟩, hcount, -⟩ := Option.map_eq_some_iff.mp h
      obtain ⟨s₂, hrun₂, hstruck⟩ :=
        perform_read_of_some (w.corridors mapId).length hpassed.lost hcount
      rw [hrun, hcounts]
      simp only [Except.mapError, hrun₂]
      exact ⟨f.error, _, s₂, rfl, rfl, hpassed.struck hstruck⟩

/-- A turn with a fault in one of these reads commits nothing. -/
theorem buildMap_turn_of_read_fault {report : BuildReport} {y : Tally}
    (hopen : s.working.tally = s.committed.tally + y)
    (hcounts : countsOf w pairKeys mapId = .ok pairCounts) (hlost : s.lost = none)
    {c : Nat × Fault BuildError} (h : cutoff (readRequests w mapId + 1) s.faults = some c)
    (hharmless : MapHarmless w s mapId) :
    ∃ report' s', perform (buildMap w true report mapId) s = (.ok report', s') ∧
      Turn w mapId report.errors s report'.errors s' := by
  obtain ⟨e, report', s', hrun, herrors, hstruck⟩ := buildMap_of_read_fault report hcounts hlost h
  refine ⟨report', s', hrun, ?_⟩
  rw [herrors]
  exact turn_of_grown e hopen (grown_of_struck hstruck) hharmless fun hs =>
    absurd hs (not_quiet_of_some h)

/-- The reads go through: what remains are the two writers. -/
theorem buildMap_of_reads (report : BuildReport)
    (hcounts : countsOf w pairKeys mapId = .ok pairCounts) (hlost : s.lost = none)
    (h : cutoff (readRequests w mapId + 1) s.faults = none) :
    ∃ (s₁ : Session BuildError TransitionTables) (report₁ : BuildReport)
      (report₂ : Nat → BuildReport), Passed (readRequests w mapId + 1) s s₁ ∧
      report₁.errors = report.errors ∧ (∀ written, (report₂ written).errors = report.errors) ∧
      perform (buildMap w true report mapId) s =
        match perform (persistPairCounts w pairCounts) s₁ with
        | (.error e, s₂) => (.ok (BuildReport.fail report₁ mapId e), s₂)
        | (.ok written, s₂) => perform (buildTriples w (report₂ written) mapId) s₂ := by
  obtain ⟨hreads, hcount⟩ := cutoff_add_eq_none.mp h
  obtain ⟨s₁, hrun₁, hpassed₁⟩ := perform_extract_of_none pairKeys hlost hreads
  rw [← hpassed₁.faults] at hcount
  obtain ⟨s₂, hrun₂, hpassed₂⟩ :=
    perform_read_of_none (w.corridors mapId).length hpassed₁.lost hcount
  refine ⟨s₂, { report with
      corridorsSeen := report.corridorsSeen + (w.corridors mapId).length },
    fun written => { report with
      corridorsSeen := report.corridorsSeen + (w.corridors mapId).length
      pairsWritten := report.pairsWritten + written
      transitionsCounted := report.transitionsCounted + sumCounts pairCounts },
    hpassed₁.trans hpassed₂, rfl, fun _ => rfl, ?_⟩
  rw [perform_buildMap, extractPairCountsForMap, hrun₁, hcounts]
  simp only [Except.mapError, hrun₂]

theorem mapContribution_of_ok (hpairs : countsOf w pairKeys mapId = .ok pairCounts)
    (htriples : countsOf w tripleKeys mapId = .ok tripleCounts) :
    mapContribution w mapId =
      pairTotal (pairRows w pairCounts) + tripleTotal (tripleRows w tripleCounts) := by
  unfold mapContribution
  rw [hpairs, htriples]

/-- A map without pairs. -/
theorem buildMap_of_nil {report : BuildReport} {y : Tally}
    (hopen : s.working.tally = s.committed.tally + y) (hlost : s.lost = none)
    (hpairs : countsOf w pairKeys mapId = .ok pairCounts) (hnil : pairRows w pairCounts = []) :
    ∃ report' s', perform (buildMap w true report mapId) s = (.ok report', s') ∧
      Turn w mapId report.errors s report'.errors s' := by
  obtain ⟨tripleCounts, htriples, himp⟩ := countsOf_triples hpairs
  have hitems : tripleCounts.items = [] := himp (List.map_eq_nil_iff.mp hnil)
  have htripleRows : tripleRows w tripleCounts = [] := by
    unfold tripleRows
    rw [hitems]
    rfl
  have hharmless : MapHarmless w s mapId := by
    right
    rw [hpairs, htriples]
    exact .inl hnil
  have hzero : mapContribution w mapId = 0 := by
    rw [mapContribution_of_ok hpairs htriples, hnil, htripleRows, adds_pairs.nil, adds_triples.nil,
      add_zero]
  cases hreads : cutoff (readRequests w mapId + 1) s.faults with
  | some c => exact buildMap_turn_of_read_fault hopen hpairs hlost hreads hharmless
  | none =>
      obtain ⟨s₁, report₁, report₂, hpassed, -, herrors₂, hrun⟩ :=
        buildMap_of_reads report hpairs hlost hreads
      have hpersist : perform (persistPairCounts w pairCounts) s₁ = (.ok 0, s₁) := by
        unfold persistPairCounts persistRows
        rw [hnil]
        rfl
      rw [hpersist] at hrun
      rw [hrun]
      have hopen₁ : s₁.working.tally = s₁.committed.tally + y := by
        rw [hpassed.working, hpassed.committed, hopen]
      cases hlast : cutoff (readRequests w mapId +
          writeRequests w.tripleBatching (tripleRows w tripleCounts)) s₁.faults with
      | some c =>
          obtain ⟨e, report', s', hrun', herrors, x, y', hadded, hopen', hx⟩ :=
            buildTriples_of_some (report₂ 0) htriples hpassed.lost hopen₁ hlast
          refine ⟨report', s', hrun', ?_⟩
          rw [herrors, herrors₂ 0]
          rw [hx htripleRows, add_zero, hpassed.committed] at hadded
          refine ⟨⟨0, y', iff_of_true rfl hharmless, hopen', .inl ⟨⟨e, rfl⟩, ?_⟩⟩, fun hs => ?_⟩
          · rw [hadded, add_zero]
          · rw [hpassed.faults, hs.faults, List.drop_nil, cutoff_nil] at hlast
            cases hlast
      | none =>
          rw [htripleRows] at hlast
          obtain ⟨report', s', hrun', herrors, hpassed'⟩ :=
            buildTriples_of_nil (report₂ 0) htriples htripleRows hpassed.lost hlast
          refine ⟨report', s', hrun', ?_⟩
          rw [herrors, herrors₂ 0]
          exact turn_of_passed hopen (hpassed.trans hpassed') hharmless hzero

theorem pairTotal_ne_zero (hrows : pairRows w pairCounts ≠ []) :
    pairTotal (pairRows w pairCounts) ≠ 0 := by
  intro h
  unfold pairRows at h hrows
  have hitems : pairCounts.items ≠ [] := by
    intro hnil
    rw [hnil] at hrows
    exact hrows rfl
  obtain ⟨kn, items, hitems⟩ := List.exists_cons_of_ne_nil hitems
  rw [hitems, List.map_cons] at h
  have hpairs := congrArg Prod.fst h
  unfold pairTotal at hpairs
  rw [Table.total_cons] at hpairs
  obtain ⟨hfirst, -⟩ := add_eq_zero.mp hpairs
  have hcount := congrFun hfirst kn.1
  rw [Pi.single_eq_same] at hcount
  exact absurd (congrArg Prod.snd hcount) Nat.one_ne_zero

theorem writeRequests_pairs (hrows : pairRows w pairCounts ≠ []) :
    writeRequests w.pairBatching (pairRows w pairCounts) =
      (w.pairBatching.split (pairRows w pairCounts)).length + 1 :=
  if_neg (by simpa using hrows)

theorem mapRequests_eq (mapId : Int) (tripleCounts : Dict TripleKey Nat)
    (hrows : pairRows w pairCounts ≠ []) :
    mapRequests w mapId pairCounts tripleCounts =
      readRequests w mapId + 1 + writeRequests w.pairBatching (pairRows w pairCounts) +
        (readRequests w mapId + writeRequests w.tripleBatching (tripleRows w tripleCounts)) := by
  have hwrites := writeRequests_pairs hrows
  unfold mapRequests beforeCommit
  omega

/-- `MapHarmless` of a map with pairs that meets a fault. -/
theorem mapHarmless_iff_of_some (hlost : s.lost = none)
    (hpairs : countsOf w pairKeys mapId = .ok pairCounts)
    (htriples : countsOf w tripleKeys mapId = .ok tripleCounts)
    (hrows : pairRows w pairCounts ≠ []) {p : Nat} {f : Fault BuildError}
    (h : cutoff (mapRequests w mapId pairCounts tripleCounts) s.faults = some (p, f)) :
    MapHarmless w s mapId ↔ p < beforeCommit w mapId pairCounts ∨
      p = beforeCommit w mapId pairCounts ∧ ¬ ∃ e, f = .drops e true := by
  unfold MapHarmless
  rw [hpairs, htriples]
  simp only [hlost, hrows, h, Option.isSome_none, Bool.false_eq_true, false_or]

/-- `MapHarmless` of a map with pairs that meets no fault. -/
theorem mapHarmless_iff_of_none (hlost : s.lost = none)
    (hpairs : countsOf w pairKeys mapId = .ok pairCounts)
    (htriples : countsOf w tripleKeys mapId = .ok tripleCounts)
    (hrows : pairRows w pairCounts ≠ [])
    (h : cutoff (mapRequests w mapId pairCounts tripleCounts) s.faults = none) :
    MapHarmless w s mapId ↔ s.working.tally = s.committed.tally := by
  unfold MapHarmless
  rw [hpairs, htriples]
  simp only [hlost, hrows, h, Option.isSome_none, Bool.false_eq_true, false_or]

variable {report : BuildReport} {y : Tally} {p : Nat} {f : Fault BuildError}

/-- A map with pairs, and a fault before its pairs are written. -/
theorem buildMap_of_pairs_read_fault (hopen : s.working.tally = s.committed.tally + y)
    (hlost : s.lost = none) (hpairs : countsOf w pairKeys mapId = .ok pairCounts)
    (hrows : pairRows w pairCounts ≠ [])
    (hreads : cutoff (readRequests w mapId + 1) s.faults = some (p, f)) :
    ∃ report' s', perform (buildMap w true report mapId) s = (.ok report', s') ∧
      Turn w mapId report.errors s report'.errors s' := by
  obtain ⟨tripleCounts, htriples, -⟩ := countsOf_triples hpairs
  have htotal : cutoff (mapRequests w mapId pairCounts tripleCounts) s.faults = some (p, f) := by
    rw [mapRequests_eq mapId tripleCounts hrows]
    exact cutoff_add_of_some (cutoff_add_of_some hreads _) _
  have hlt : p < beforeCommit w mapId pairCounts :=
    Nat.lt_add_right _ (cutoff_lt hreads)
  have hharmless : MapHarmless w s mapId :=
    (mapHarmless_iff_of_some hlost hpairs htriples hrows htotal).mpr (.inl hlt)
  exact buildMap_turn_of_read_fault hopen hpairs hlost hreads hharmless

/-- A map with pairs, and a fault while they are written: harmless, unless their commit has taken
    effect all the same. -/
theorem buildMap_of_pairs_write_fault (hopen : s.working.tally = s.committed.tally + y)
    (hlost : s.lost = none) (hpairs : countsOf w pairKeys mapId = .ok pairCounts)
    (hrows : pairRows w pairCounts ≠ [])
    (hreads : cutoff (readRequests w mapId + 1) s.faults = none)
    (hwrites : cutoff (writeRequests w.pairBatching (pairRows w pairCounts))
      (s.faults.drop (readRequests w mapId + 1)) = some (p, f)) :
    ∃ report' s', perform (buildMap w true report mapId) s = (.ok report', s') ∧
      Turn w mapId report.errors s report'.errors s' := by
  obtain ⟨tripleCounts, htriples, -⟩ := countsOf_triples hpairs
  have hbefore : cutoff (readRequests w mapId + 1 +
      writeRequests w.pairBatching (pairRows w pairCounts)) s.faults =
        some (p + (readRequests w mapId + 1), f) := by
    rw [cutoff_add_of_none hreads, hwrites]
    rfl
  have htotal : cutoff (mapRequests w mapId pairCounts tripleCounts) s.faults =
      some (p + (readRequests w mapId + 1), f) := by
    rw [mapRequests_eq mapId tripleCounts hrows]
    exact cutoff_add_of_some hbefore _
  have hiff := mapHarmless_iff_of_some hlost hpairs htriples hrows htotal
  have hcommit : beforeCommit w mapId pairCounts = readRequests w mapId + 1 +
      (w.pairBatching.split (pairRows w pairCounts)).length := rfl
  obtain ⟨s₁, report₁, report₂, hpassed, herrors₁, -, hrun⟩ :=
    buildMap_of_reads report hpairs hlost hreads
  rw [← hpassed.faults] at hwrites
  obtain ⟨e, s₂, hrun₂, hcases⟩ := perform_persist_of_some adds_pairs hrows hpassed.lost hwrites
  rw [hrun, persistPairCounts, hrun₂]
  refine ⟨_, s₂, rfl, ?_⟩
  show Turn w mapId report.errors s (report₁.errors ++ [(mapId, e)]) s₂
  rw [herrors₁]
  obtain ⟨hposition, hgrown⟩ | ⟨⟨hlast, happlied⟩, hrest, htally⟩ := hcases
  · have hharmless : MapHarmless w s mapId := by
      rw [hiff]
      obtain hlt | ⟨heq, hnot⟩ := hposition
      · exact .inl (by omega)
      · exact .inr ⟨by omega, hnot⟩
    have hgrown' : Grown s s₂ := by
      refine ⟨hgrown.committed.trans hpassed.committed, ?_⟩
      rw [← hpassed.committed, ← hpassed.working]
      exact hgrown.working
    exact turn_of_grown e hopen hgrown' hharmless fun hs => absurd hs (not_quiet_of_some hbefore)
  · -- the commit has taken effect, and its answer is lost
    refine ⟨⟨y + pairTotal (pairRows w pairCounts), 0, ?_, ?_, .inl ⟨⟨e, rfl⟩, ?_⟩⟩,
      fun hs => absurd hs (not_quiet_of_some hbefore)⟩
    · apply iff_of_false
      · exact fun hzero => pairTotal_ne_zero hrows (add_eq_zero.mp hzero).2
      · rw [hiff]
        rintro (hlt | ⟨-, hnot⟩)
        · omega
        · exact hnot happlied
    · rw [hrest, add_zero]
    · rw [htally, hpassed.working, hopen, add_assoc]

/-- The pairs of a map are committed: what remains are its triples. -/
theorem buildMap_of_written (report : BuildReport) (hopen : s.working.tally = s.committed.tally + y)
    (hlost : s.lost = none) (hpairs : countsOf w pairKeys mapId = .ok pairCounts)
    (hrows : pairRows w pairCounts ≠ [])
    (h : cutoff (readRequests w mapId + 1 +
      writeRequests w.pairBatching (pairRows w pairCounts)) s.faults = none) :
    ∃ (s' : Session BuildError TransitionTables) (report' : BuildReport),
      s'.lost = none ∧
      s'.faults = s.faults.drop (readRequests w mapId + 1 +
        writeRequests w.pairBatching (pairRows w pairCounts)) ∧
      s'.working = s'.committed ∧
      s'.committed.tally = s.committed.tally + y + pairTotal (pairRows w pairCounts) ∧
      report'.errors = report.errors ∧
      perform (buildMap w true report mapId) s = perform (buildTriples w report' mapId) s' := by
  obtain ⟨hreads, hwrites⟩ := cutoff_add_eq_none.mp h
  obtain ⟨s₁, report₁, report₂, hpassed, -, herrors₂, hrun⟩ :=
    buildMap_of_reads report hpairs hlost hreads
  rw [← hpassed.faults] at hwrites
  obtain ⟨s₂, hrun₂, hlost₂, hfaults₂, hrest₂, htally₂⟩ :=
    perform_persist_of_none adds_pairs hrows hpassed.lost hwrites
  rw [persistPairCounts, hrun₂] at hrun
  refine ⟨s₂, report₂ _, hlost₂, ?_, hrest₂, ?_, herrors₂ _, hrun⟩
  · rw [hfaults₂, hpassed.faults, List.drop_drop]
  · rw [htally₂, hpassed.working, hopen]

/-- A map with pairs, and a fault after their commit. -/
theorem buildMap_of_triples_fault (hopen : s.working.tally = s.committed.tally + y)
    (hlost : s.lost = none) (hpairs : countsOf w pairKeys mapId = .ok pairCounts)
    (htriples : countsOf w tripleKeys mapId = .ok tripleCounts)
    (hrows : pairRows w pairCounts ≠ [])
    (hwritten : cutoff (readRequests w mapId + 1 +
      writeRequests w.pairBatching (pairRows w pairCounts)) s.faults = none)
    (hlast : cutoff (readRequests w mapId +
        writeRequests w.tripleBatching (tripleRows w tripleCounts))
      (s.faults.drop (readRequests w mapId + 1 +
        writeRequests w.pairBatching (pairRows w pairCounts))) = some (p, f)) :
    ∃ report' s', perform (buildMap w true report mapId) s = (.ok report', s') ∧
      Turn w mapId report.errors s report'.errors s' := by
  have htotal : cutoff (mapRequests w mapId pairCounts tripleCounts) s.faults =
      some (p + (readRequests w mapId + 1 +
        writeRequests w.pairBatching (pairRows w pairCounts)), f) := by
    rw [mapRequests_eq mapId tripleCounts hrows, cutoff_add_of_none hwritten, hlast]
    rfl
  have hpast : beforeCommit w mapId pairCounts < readRequests w mapId + 1 +
      writeRequests w.pairBatching (pairRows w pairCounts) := by
    rw [writeRequests_pairs hrows]
    exact Nat.lt_succ_self _
  obtain ⟨s₂, report₂, hlost₂, hfaults₂, hrest₂, htally₂, herrors₂, hrun⟩ :=
    buildMap_of_written report hopen hlost hpairs hrows hwritten
  have hopen₂ : s₂.working.tally = s₂.committed.tally + 0 := by
    rw [hrest₂, add_zero]
  rw [← hfaults₂] at hlast
  obtain ⟨e, report', s₃, hrun₃, herrors₃, x, y', hadded, hopen₃, -⟩ :=
    buildTriples_of_some report₂ htriples hlost₂ hopen₂ hlast
  refine ⟨report', s₃, hrun.trans hrun₃, ?_⟩
  rw [herrors₃, herrors₂]
  refine ⟨⟨y + pairTotal (pairRows w pairCounts) + x, y', ?_, hopen₃, .inl ⟨⟨e, rfl⟩, ?_⟩⟩,
    fun hs => absurd hs (not_quiet_of_some htotal)⟩
  · apply iff_of_false
    · intro hzero
      exact pairTotal_ne_zero hrows (add_eq_zero.mp (add_eq_zero.mp hzero).1).2
    · rw [mapHarmless_iff_of_some hlost hpairs htriples hrows htotal]
      rintro (hlt | ⟨heq, -⟩)
      · omega
      · omega
  · rw [hadded, htally₂]
    simp only [add_assoc]

/-- A map with pairs, without a fault: it commits what was left in the open transaction, too. -/
theorem buildMap_of_no_fault (hopen : s.working.tally = s.committed.tally + y)
    (hlost : s.lost = none) (hpairs : countsOf w pairKeys mapId = .ok pairCounts)
    (htriples : countsOf w tripleKeys mapId = .ok tripleCounts)
    (hrows : pairRows w pairCounts ≠ [])
    (h : cutoff (mapRequests w mapId pairCounts tripleCounts) s.faults = none) :
    ∃ report' s', perform (buildMap w true report mapId) s = (.ok report', s') ∧
      Turn w mapId report.errors s report'.errors s' := by
  have hiff := mapHarmless_iff_of_none hlost hpairs htriples hrows h
  rw [mapRequests_eq mapId tripleCounts hrows] at h
  obtain ⟨hwritten, hlast⟩ := cutoff_add_eq_none.mp h
  obtain ⟨s₂, report₂, hlost₂, hfaults₂, hrest₂, htally₂, herrors₂, hrun⟩ :=
    buildMap_of_written report hopen hlost hpairs hrows hwritten
  rw [← hfaults₂] at hlast
  obtain ⟨report', s₃, hrun₃, herrors₃, hlost₃, hfaults₃, hrest₃, htally₃⟩ :=
    buildTriples_of_none report₂ htriples hlost₂ hrest₂ hlast
  have hcommitted₃ : s₃.committed.tally = s.committed.tally + mapContribution w mapId + y := by
    rw [htally₃, htally₂, mapContribution_of_ok hpairs htriples]
    abel
  refine ⟨report', s₃, hrun.trans hrun₃, ?_⟩
  rw [herrors₃, herrors₂]
  refine ⟨⟨y, 0, ?_, ?_, .inr ⟨rfl, hcommitted₃⟩⟩, fun hs => ?_⟩
  · rw [hiff, hopen, add_eq_left]
  · rw [hrest₃, add_zero]
  · have hzero : y = 0 := by
      rw [← add_eq_left (a := s.committed.tally), ← hopen]
      exact hs.settled
    refine ⟨⟨hlost₃, ?_, by rw [hrest₃]⟩, ?_⟩
    · rw [hfaults₃, hfaults₂, hs.faults, List.drop_nil, List.drop_nil]
    · rw [hcommitted₃, hzero, add_zero]

/-- A map with pairs, by the position of its first fault. -/
theorem buildMap_of_pairs (hopen : s.working.tally = s.committed.tally + y) (hlost : s.lost = none)
    (hpairs : countsOf w pairKeys mapId = .ok pairCounts) (hrows : pairRows w pairCounts ≠ []) :
    ∃ report' s', perform (buildMap w true report mapId) s = (.ok report', s') ∧
      Turn w mapId report.errors s report'.errors s' := by
  obtain ⟨tripleCounts, htriples, -⟩ := countsOf_triples hpairs
  cases hreads : cutoff (readRequests w mapId + 1) s.faults with
  | some c => exact buildMap_of_pairs_read_fault hopen hlost hpairs hrows hreads
  | none =>
      cases hwrites : cutoff (writeRequests w.pairBatching (pairRows w pairCounts))
          (s.faults.drop (readRequests w mapId + 1)) with
      | some c => exact buildMap_of_pairs_write_fault hopen hlost hpairs hrows hreads hwrites
      | none =>
          have hwritten := cutoff_add_eq_none.mpr ⟨hreads, hwrites⟩
          cases hlast : cutoff (readRequests w mapId +
              writeRequests w.tripleBatching (tripleRows w tripleCounts))
              (s.faults.drop (readRequests w mapId + 1 +
                writeRequests w.pairBatching (pairRows w pairCounts))) with
          | some c =>
              exact buildMap_of_triples_fault hopen hlost hpairs htriples hrows hwritten hlast
          | none =>
              refine buildMap_of_no_fault hopen hlost hpairs htriples hrows ?_
              rw [mapRequests_eq mapId tripleCounts hrows]
              exact cutoff_add_eq_none.mpr ⟨hwritten, hlast⟩

/-- Every turn returns. -/
theorem buildMap_turn (report : BuildReport) (mapId : Int) {y : Tally}
    (hopen : s.working.tally = s.committed.tally + y) :
    ∃ report' s', perform (buildMap w true report mapId) s = (.ok report', s') ∧
      Turn w mapId report.errors s report'.errors s' := by
  cases hpairs : countsOf w pairKeys mapId with
  | error e => exact buildMap_of_raise hopen (.inr ⟨e, hpairs⟩)
  | ok pairCounts =>
      cases hlost : s.lost with
      | some e => exact buildMap_of_raise hopen (.inl (by rw [hlost]; rfl))
      | none =>
          by_cases hrows : pairRows w pairCounts = []
          · exact buildMap_of_nil hopen hlost hpairs hrows
          · exact buildMap_of_pairs hopen hlost hpairs hrows

end
end TraxMania.Constraints
