import TraxMania.Constraints.MapTurn

/-
  What each map has added to the two transition tables after a build: all of its counts or none of
  them, exactly when no map fails after the commit of its pairs has taken effect, and none is
  committed together with what a failed map has left in the open transaction.
-/

namespace TraxMania.Constraints

open Lib Lib.Txn Lib.Transition

variable {w : BuildWorld}

/-! ## Every build -/

section

variable (w)

/-- The report, and the connection. -/
abbrev BuildState := BuildReport × Session BuildError TransitionTables

/-- One turn of the loop. -/
def buildStep (s : BuildState) (mapId : Int) : BuildState :=
  let r := perform (buildMap w true s.1 mapId) s.2
  (r.1.toOption.getD s.1, r.2)

/-- The loop over `ids` before its first turn, on a new connection. -/
def buildStart (ids : List Int) (d : TransitionTables) (faults : List (Option (Fault BuildError))) :
    BuildState :=
  (⟨ids.length, 0, 0, 0, 0, 0, []⟩, Session.start d faults)

/-- The maps that the report names. -/
def BuildReport.failedIds (report : BuildReport) : List Int := report.errors.map Prod.fst

/-- What the maps contribute together. -/
def mapContributions (ids : List Int) : Tally := (ids.map (mapContribution w)).sum

/-- Every map that has failed has added nothing, and every other map all of its counts, once. -/
def AllOrNothing (ids : List Int) (d : TransitionTables) (report : BuildReport)
    (d' : TransitionTables) : Prop :=
  d'.tally = d.tally + mapContributions w (ids.filter fun m => m ∉ report.failedIds)

/-- The tables after a build of the maps without a fault. -/
def built (ids : List Int) (d : TransitionTables) : TransitionTables :=
  (perform (buildBlockTransitionCounts w (some ids) none true) (Session.start d [])).2.committed

end

theorem mapContributions_cons (mapId : Int) (ids : List Int) :
    mapContributions w (mapId :: ids) = mapContribution w mapId + mapContributions w ids := rfl

variable {s : Session BuildError TransitionTables}

/-- A turn of the loop. -/
theorem buildStep_turn (report : BuildReport) (mapId : Int) {y : Tally}
    (hopen : s.working.tally = s.committed.tally + y) :
    perform (buildMap w true report mapId) s =
        (.ok (buildStep w (report, s) mapId).1, (buildStep w (report, s) mapId).2) ∧
      Turn w mapId report.errors s (buildStep w (report, s) mapId).1.errors
        (buildStep w (report, s) mapId).2 := by
  obtain ⟨report', s', hrun, hturn⟩ := buildMap_turn report mapId hopen
  have hstep : buildStep w (report, s) mapId = (report', s') := by
    unfold buildStep
    rw [hrun]
    rfl
  rw [hstep]
  exact ⟨hrun, hturn⟩

/-- The loop returns what its turns make of the report and the connection. -/
theorem perform_buildMaps (ids : List Int) :
    ∀ (report : BuildReport) (s : Session BuildError TransitionTables) (y : Tally),
      s.working.tally = s.committed.tally + y →
        perform (buildMaps w true ids report) s =
          (.ok (after (buildStep w) (report, s) ids).1,
            (after (buildStep w) (report, s) ids).2) := by
  induction ids with
  | nil =>
      intro report s y _
      rfl
  | cons mapId ids ih =>
      intro report s y hopen
      obtain ⟨hrun, hturn⟩ := buildStep_turn (w := w) report mapId hopen
      obtain ⟨x, y', -, hopen', -⟩ := hturn.added
      rw [buildMaps, perform_bind, hrun]
      exact ih _ _ y' hopen'

theorem perform_build (ids : List Int) (limit : Option Int) (d : TransitionTables)
    (faults : List (Option (Fault BuildError))) :
    perform (buildBlockTransitionCounts w (some ids) limit true) (Session.start d faults) =
      (.ok (after (buildStep w) (buildStart ids d faults) ids).1,
        (after (buildStep w) (buildStart ids d faults) ids).2) := by
  unfold buildBlockTransitionCounts
  exact perform_buildMaps ids _ _ 0 (add_zero _).symm

/-- Without faults every map adds its contribution. -/
theorem tally_after_of_quiet (ids : List Int) :
    ∀ (report : BuildReport) (s : Session BuildError TransitionTables), Quiet s →
      (after (buildStep w) (report, s) ids).2.committed.tally =
        s.committed.tally + mapContributions w ids := by
  induction ids with
  | nil =>
      intro report s _
      exact (add_zero _).symm
  | cons mapId ids ih =>
      intro report s hs
      have hopen : s.working.tally = s.committed.tally + 0 := by
        rw [hs.settled, add_zero]
      obtain ⟨-, hturn⟩ := buildStep_turn (w := w) report mapId hopen
      obtain ⟨hquiet, htally⟩ := hturn.quiet hs
      rw [after_cons]
      have hrest := ih (buildStep w (report, s) mapId).1 _ hquiet
      rw [hrest, htally, mapContributions_cons, add_assoc]

theorem tally_built (ids : List Int) (d : TransitionTables) :
    (built w ids d).tally = d.tally + mapContributions w ids := by
  unfold built
  rw [perform_build]
  exact tally_after_of_quiet ids _ _ ⟨rfl, rfl, rfl⟩

/-- A map that has failed is left out; the maps after it are other maps. -/
theorem filter_notMem_cons {mapId : Int} {ids : List Int} {e : BuildError}
    {errors : List (Int × BuildError)} (hnew : mapId ∉ ids) :
    (mapId :: ids).filter (fun m => m ∉ ((mapId, e) :: errors).map Prod.fst) =
      ids.filter fun m => m ∉ errors.map Prod.fst := by
  rw [List.filter_cons_of_neg (by simp)]
  apply List.filter_congr
  intro m hm
  have hne : m ≠ mapId := fun heq => hnew (heq ▸ hm)
  simp [hne]

/-- What a run of the loop adds: the contributions of the maps that do not fail, and something else
    (`x`) unless every turn is harmless. -/
theorem tally_after (ids : List Int) (hids : ids.Nodup) :
    ∀ (report : BuildReport) (s : Session BuildError TransitionTables) (y : Tally),
      s.working.tally = s.committed.tally + y → ∃ errors x,
        (after (buildStep w) (report, s) ids).1.errors = report.errors ++ errors ∧
          (∀ e ∈ errors, e.1 ∈ ids) ∧
          (after (buildStep w) (report, s) ids).2.committed.tally = s.committed.tally +
            mapContributions w (ids.filter fun m => m ∉ errors.map Prod.fst) + x ∧
          mapContributions w (ids.filter fun m => m ∉ errors.map Prod.fst) +
            mapContributions w (errors.map Prod.fst) = mapContributions w ids ∧
          (x = 0 ↔ Steps (fun s m => MapHarmless w s.2 m) (buildStep w) (report, s) ids) := by
  induction ids with
  | nil =>
      intro report s y _
      exact ⟨[], 0, (List.append_nil _).symm, nofun, (add_zero _).symm.trans (add_zero _).symm,
        add_zero _, iff_of_true rfl trivial⟩
  | cons mapId ids ih =>
      intro report s y hopen
      obtain ⟨hnew, hids'⟩ := List.nodup_cons.mp hids
      obtain ⟨-, hturn⟩ := buildStep_turn (w := w) report mapId hopen
      obtain ⟨x, y', hiff, hopen', hcases⟩ := hturn.added
      obtain ⟨errors, x', herrors, hmem, htally, hsum, hiff'⟩ :=
        ih hids' (buildStep w (report, s) mapId).1 _ y' hopen'
      have hsteps : x + x' = 0 ↔
          Steps (fun s m => MapHarmless w s.2 m) (buildStep w) (report, s) (mapId :: ids) := by
        rw [add_eq_zero, hiff, hiff']
        rfl
      have hfresh : mapId ∉ errors.map Prod.fst := by
        intro h
        obtain ⟨e, he, heq⟩ := List.mem_map.mp h
        exact hnew (heq ▸ hmem e he)
      have hlater : ∀ e ∈ errors, e.1 ∈ mapId :: ids := fun e he =>
        List.mem_cons_of_mem _ (hmem e he)
      rw [after_cons]
      obtain ⟨⟨e, hfail⟩, hcommitted⟩ | ⟨hok, hcommitted⟩ := hcases
      · refine ⟨(mapId, e) :: errors, x + x', ?_, ?_, ?_, ?_, hsteps⟩
        · rw [herrors, hfail, List.append_assoc]
          rfl
        · exact List.forall_mem_cons.mpr ⟨List.mem_cons_self, hlater⟩
        · rw [htally, hcommitted, filter_notMem_cons hnew]
          abel
        · rw [filter_notMem_cons hnew, List.map_cons, mapContributions_cons, mapContributions_cons,
            ← hsum]
          abel
      · have hfilter : (mapId :: ids).filter (fun m => m ∉ errors.map Prod.fst) =
            mapId :: ids.filter fun m => m ∉ errors.map Prod.fst :=
          List.filter_cons_of_pos (decide_eq_true hfresh)
        refine ⟨errors, x + x', ?_, hlater, ?_, ?_, hsteps⟩
        · rw [herrors, hok]
        · rw [htally, hcommitted, hfilter, mapContributions_cons]
          abel
        · rw [hfilter, mapContributions_cons, mapContributions_cons, ← hsum, add_assoc]

/-- A build adds all of the counts of the maps that do not fail and nothing else, so that building
    the failed maps again gives the tables of a build without faults, exactly when every turn of its
    loop is harmless. -/
theorem all_or_nothing_iff (w : BuildWorld) {ids : List Int} (hids : ids.Nodup)
    (limit : Option Int) (d : TransitionTables) (faults : List (Option (Fault BuildError))) :
    (∃ report s, perform (buildBlockTransitionCounts w (some ids) limit true)
          (Session.start d faults) = (.ok report, s) ∧
        AllOrNothing w ids d report s.committed ∧
        (built w report.failedIds s.committed).tally = (built w ids d).tally) ↔
      Steps (fun s m => MapHarmless w s.2 m) (buildStep w) (buildStart ids d faults) ids := by
  obtain ⟨errors, x, herrors, -, htally, hsum, hiff⟩ := tally_after (w := w) ids hids
    (buildStart ids d faults).1 (buildStart ids d faults).2 0 (add_zero _).symm
  have hfailed : (after (buildStep w) (buildStart ids d faults) ids).1.failedIds =
      errors.map Prod.fst := congrArg (List.map Prod.fst) herrors
  have hrun := perform_build (w := w) ids limit d faults
  rw [← hiff]
  constructor
  · rintro ⟨report, s, hrun', hall, -⟩
    obtain ⟨hreport, rfl⟩ := Prod.mk.inj (hrun.symm.trans hrun')
    rw [← Except.ok.inj hreport] at hall
    unfold AllOrNothing at hall
    rw [hfailed] at hall
    exact add_eq_left.mp (htally.symm.trans hall)
  · intro hzero
    rw [hzero, add_zero] at htally
    refine ⟨_, _, hrun, ?_, ?_⟩
    · unfold AllOrNothing
      rw [hfailed]
      exact htally
    · rw [tally_built, tally_built, hfailed, ← hsum, ← add_assoc]
      exact congrArg (· + mapContributions w (errors.map Prod.fst)) htally

/-! ## A map whose pairs stay -/

/-- Every map has one corridor of two cells, with a block at each. -/
def plainWorld : BuildWorld where
  py := {
    loads := fun _ => .ok (.arr [.arr [.int 0, .int 0, .int 0], .arr [.int 1, .int 0, .int 0]])
    intOfText := fun _ => none
    digest := fun _ => 0 }
  sha256 := id
  codeVersion := "unknown"
  corridors _ := [⟨"Stadium", "[[0,0,0],[1,0,0]]"⟩]
  placements _ := [⟨"Road", "RoadStraight", some 0, some 0, some 0⟩,
    ⟨"Road", "RoadCurve", some 1, some 0, some 0⟩]
  scannedIds := [1, 2]
  pairBatching := ⟨fun rows => [rows], fun rows => by simp⟩
  tripleBatching := ⟨fun rows => [rows], fun rows => by simp⟩

def emptyTables : TransitionTables := ⟨Table.empty, Table.empty⟩

/-- A fault after `n` requests; the transaction stays open. -/
def faultAfter (n : Nat) : List (Option (Fault BuildError)) :=
  List.replicate n none ++ [some (.fails (.mySql "Lock wait timeout exceeded") false)]

theorem mapHarmless_of_faults_nil {mapId : Int} (hfaults : s.faults = [])
    (hsettled : s.working.tally = s.committed.tally) : MapHarmless w s mapId := by
  unfold MapHarmless
  rw [hfaults]
  right
  split
  · rw [cutoff_nil]
    exact .inr hsettled
  · trivial

/-- The upsert of the pairs of the first map fails. -/
theorem nothing_of_first_map :
    ∃ report s, perform (buildBlockTransitionCounts plainWorld (some [1, 2]) none true)
        (Session.start emptyTables (faultAfter 3)) = (.ok report, s) ∧
      AllOrNothing plainWorld [1, 2] emptyTables report s.committed ∧
      (built plainWorld report.failedIds s.committed).tally =
        (built plainWorld [1, 2] emptyTables).tally := by
  have hfirst : MapHarmless plainWorld (buildStart [1, 2] emptyTables (faultAfter 3)).2 1 := by
    refine .inr (.inr (.inl ?_))
    decide +kernel
  have hfaults : (buildStep plainWorld (buildStart [1, 2] emptyTables (faultAfter 3)) 1).2.faults =
      [] := by
    decide +kernel
  have hrest : (buildStep plainWorld (buildStart [1, 2] emptyTables (faultAfter 3)) 1).2.working =
      (buildStep plainWorld (buildStart [1, 2] emptyTables (faultAfter 3)) 1).2.committed := by
    decide +kernel
  have hsecond : MapHarmless plainWorld
      (buildStep plainWorld (buildStart [1, 2] emptyTables (faultAfter 3)) 1).2 2 :=
    mapHarmless_of_faults_nil hfaults (by rw [hrest])
  exact (all_or_nothing_iff plainWorld (by decide) none emptyTables (faultAfter 3)).mpr
    ⟨hfirst, hsecond, trivial⟩

def straightToCurve : PairKey := ⟨"Road", "RoadStraight", "Road", "RoadCurve", "Stadium"⟩

theorem tally_of_pairs_eq {d : TransitionTables} {row : TransitionRow PairKey PairKey}
    (h : d.pairs.rows = [row]) : d.tally.1 row.primary = row.counts := by
  have hfind : d.pairs.find row.primary = some row := by
    rw [Table.find_eq_some, h]
    exact ⟨List.mem_singleton_self row, rfl⟩
  show (d.pairs.find row.primary).elim 0 TransitionRow.counts = row.counts
  rw [hfind]
  rfl

/-- The first read for the triples of map 1 fails, after the commit of its pairs. -/
theorem pairs_of_failed_map :
    ∃ report s, perform (buildBlockTransitionCounts plainWorld (some [1]) none true)
        (Session.start emptyTables (faultAfter 5)) = (.ok report, s) ∧
      report.failedIds = [1] ∧
      s.committed.pairs.rows = [⟨straightToCurve, straightToCurve, 1, 1, "unknown"⟩] ∧
      ¬ AllOrNothing plainWorld [1] emptyTables report s.committed := by
  have hfailed : (after (buildStep plainWorld)
      (buildStart [1] emptyTables (faultAfter 5)) [1]).1.failedIds = [1] := by
    decide +kernel
  have hrows : (after (buildStep plainWorld)
      (buildStart [1] emptyTables (faultAfter 5)) [1]).2.committed.pairs.rows =
        [⟨straightToCurve, straightToCurve, 1, 1, "unknown"⟩] := by
    decide +kernel
  refine ⟨_, _, perform_build [1] none emptyTables (faultAfter 5), hfailed, hrows, ?_⟩
  intro hall
  unfold AllOrNothing at hall
  rw [hfailed] at hall
  have hcount := (tally_of_pairs_eq hrows).symm.trans
    (congrFun (congrArg Prod.fst hall) straightToCurve)
  have hnone : (emptyTables.tally + mapContributions plainWorld []).1 straightToCurve = 0 := rfl
  exact absurd (hcount.trans hnone) (by decide)

end TraxMania.Constraints
