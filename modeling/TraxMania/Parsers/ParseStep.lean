import TraxMania.Parsers.Pipeline

/-
  What the parts of the map-parse pipeline do: which rows a fetch gives, which rows a parse
  writes, what each statement changes, and from these what one turn of the loop of `run` leaves
  behind, whatever the requests meet.
-/

namespace TraxMania.Parsers
open Lib Lib.Txn Storage

variable {φ : Type}

/-! ## Fetching -/

theorem toUnparsed_eq_some {r : MapRow} {row : UnparsedMap} (h : toUnparsed r = some row) :
    row.id = r.id ∧ r.rawArtifactPath = some row.rawArtifactPath ∧
      row.rawArtifactHash = r.rawArtifactHash ∧ row.currentParseStatus = r.parseStatus := by
  unfold toUnparsed at h
  rw [Option.map_eq_some_iff] at h
  obtain ⟨path, hpath, rfl⟩ := h
  exact ⟨rfl, hpath, rfl, rfl⟩

theorem mem_fetchUnparsed {args : RunArgs} {d : Db φ} {row : UnparsedMap}
    (h : row ∈ fetchUnparsed args d) :
    ∃ r ∈ d.maps.rows, toUnparsed r = some row ∧ awaitsParse args.retryTransient r := by
  unfold fetchUnparsed at h
  obtain ⟨r, hr, hrow⟩ := List.mem_filterMap.mp h
  have hsorted : r ∈ SortBy.sortBy MapRow.id (d.maps.rows.filter fun r =>
      r.rawArtifactPath.isSome && awaitsParse args.retryTransient r && inScope args r) := by
    cases hlimit : args.maxMaps with
    | none => simpa only [hlimit] using hr
    | some limit =>
      simp only [hlimit] at hr
      exact List.mem_of_mem_take hr
  rw [SortBy.mem_sortBy, List.mem_filter] at hsorted
  simp only [Bool.and_eq_true] at hsorted
  exact ⟨r, hsorted.1, hrow, hsorted.2.1.2⟩

/-- A fetch gives no map twice. -/
theorem fetchUnparsed_nodup (args : RunArgs) (d : Db φ) :
    ((fetchUnparsed args d).map UnparsedMap.id).Nodup := by
  have hids : ∀ rows : List MapRow,
      ((rows.filterMap toUnparsed).map UnparsedMap.id).Sublist (rows.map MapRow.id) := by
    intro rows
    induction rows with
    | nil => exact List.Sublist.refl _
    | cons r rows ih =>
      cases hr : toUnparsed r with
      | none =>
        rw [List.filterMap_cons_none hr]
        exact ih.trans (List.sublist_cons_self _ _)
      | some row =>
        rw [List.filterMap_cons_some hr, List.map_cons, List.map_cons, (toUnparsed_eq_some hr).1]
        exact ih.cons_cons _
  have hsorted : ((SortBy.sortBy MapRow.id (d.maps.rows.filter fun r =>
      r.rawArtifactPath.isSome && awaitsParse args.retryTransient r && inScope args r)).map
        MapRow.id).Nodup :=
    ((SortBy.sortBy_perm _ _).map _).nodup_iff.mpr
      (d.maps.nodup.sublist (List.filter_sublist.map _))
  unfold fetchUnparsed
  refine (hsorted.sublist ?_).sublist (hids _)
  cases args.maxMaps with
  | none => exact List.Sublist.refl _
  | some limit => exact (List.take_sublist _ _).map _

/-- A run over all maps that retries transient failures. -/
def RunArgs.everything : RunArgs := ⟨none, none, true, 0, 1⟩

theorem mem_fetch_everything {d : Db φ} {r : MapRow} {row : UnparsedMap} (hr : r ∈ d.maps.rows)
    (hrow : toUnparsed r = some row) (hawaits : awaitsParse true r) :
    row ∈ fetchUnparsed RunArgs.everything d := by
  have hpath := (toUnparsed_eq_some hrow).2.1
  refine List.mem_filterMap.mpr ⟨r, ?_, hrow⟩
  simp only [RunArgs.everything]
  rw [SortBy.mem_sortBy, List.mem_filter]
  exact ⟨hr, by simp [hpath, hawaits, inScope]⟩

/-! ## Rows of a parse -/

/-- Every row of a parse carries the map, the parser version and the hash that was fetched. -/
structure WrittenFor (p : MapParsePipeline) (row : UnparsedMap) (b : BlockRow φ) : Prop where
  mapId : b.mapId = row.id
  parserVersion : b.parserVersion = p.parserVersion
  source : b.sourceArtifactIds = ⟨toString row.id, row.rawArtifactHash.getD ""⟩

theorem blockRow_writtenFor {p : MapParsePipeline} {row : UnparsedMap} {i : Nat}
    {block : ParsedBlock φ} {b : BlockRow φ} (h : blockRow p row i block = some b) :
    WrittenFor p row b := by
  unfold blockRow at h
  rcases hflags : block.flags with _ | _ | n <;> simp only [hflags] at h
  · rw [← Option.some.inj h]
    cases block.placement <;> exact ⟨rfl, rfl, rfl⟩
  · simp at h
  · rw [← Option.some.inj h]
    cases block.placement <;> exact ⟨rfl, rfl, rfl⟩

theorem blockRowsFrom_writtenFor {p : MapParsePipeline} {row : UnparsedMap} {i : Nat}
    {blocks : List (Option (ParsedBlock φ))} {rows : List (BlockRow φ)}
    (h : blockRowsFrom p row i blocks = some rows) : ∀ b ∈ rows, WrittenFor p row b := by
  induction blocks generalizing i rows with
  | nil =>
    rw [← Option.some.inj h]
    exact fun b hb => absurd hb List.not_mem_nil
  | cons block blocks ih =>
    cases block with
    | none => exact ih h
    | some block =>
      simp only [blockRowsFrom, Option.bind_eq_bind, Option.bind_eq_some_iff] at h
      obtain ⟨r, hr, rs, hrs, hrows⟩ := h
      rw [← Option.some.inj hrows]
      intro b hb
      rcases List.mem_cons.mp hb with rfl | hb
      · exact blockRow_writtenFor hr
      · exact ih hrs b hb

theorem blockRows_writtenFor {p : MapParsePipeline} {row : UnparsedMap}
    {blocks : List (Option (ParsedBlock φ))} {rows : List (BlockRow φ)}
    (h : blockRows p row blocks = some rows) : ∀ b ∈ rows, WrittenFor p row b :=
  blockRowsFrom_writtenFor h

/-! ## Statements -/

theorem insertBlock_eq_ok {b : BlockRow φ} {d d' : Db φ} (h : insertBlock b d = .ok d') :
    (∃ r ∈ d.maps.rows, r.id = b.mapId) ∧ ∃ placements, d.placements.insert b = some placements ∧
      d' = { d with placements := placements } := by
  unfold insertBlock at h
  split at h
  · simp at h
  · next hmap =>
    rw [Option.isNone_iff_eq_none, ← ne_eq, Option.ne_none_iff_exists'] at hmap
    obtain ⟨r, hr⟩ := hmap
    split at h
    · next placements hins =>
      cases h
      exact ⟨⟨r, Table.find_eq_some.mp hr⟩, placements, hins, rfl⟩
    · simp at h

theorem runAll_insertBlock {rows : List (BlockRow φ)} {d d' : Db φ}
    (h : runAll (rows.map insertBlock) d = .ok d') :
    d'.nextId = d.nextId ∧ d'.maps = d.maps ∧
      d'.placements.rows = d.placements.rows ++ rows ∧
      ∀ b ∈ rows, ∃ r ∈ d.maps.rows, r.id = b.mapId := by
  induction rows generalizing d with
  | nil =>
    cases h
    exact ⟨rfl, rfl, (List.append_nil _).symm, fun b hb => absurd hb List.not_mem_nil⟩
  | cons b rows ih =>
    obtain ⟨d₁, hb, hrest⟩ := runAll_cons_eq_ok h
    obtain ⟨hmap, placements, hins, rfl⟩ := insertBlock_eq_ok hb
    obtain ⟨hnext, hmaps, hrows, hall⟩ := ih hrest
    refine ⟨hnext, hmaps, ?_, List.forall_mem_cons.mpr ⟨hmap, hall⟩⟩
    rw [hrows, Table.rows_of_insert hins, List.append_assoc]
    rfl

theorem insertWaypoint_eq_ok {w : WaypointRow φ} {d d' : Db φ} (h : insertWaypoint w d = .ok d') :
    ∃ checkpoints, d' = { d with checkpoints := checkpoints } := by
  unfold insertWaypoint at h
  split at h
  · simp at h
  · split at h
    · cases h
      exact ⟨_, rfl⟩
    · simp at h

theorem runAll_insertWaypoint {ws : List (WaypointRow φ)} {d d' : Db φ}
    (h : runAll (ws.map insertWaypoint) d = .ok d') :
    ∃ checkpoints, d' = { d with checkpoints := checkpoints } := by
  induction ws generalizing d with
  | nil =>
    cases h
    exact ⟨d'.checkpoints, rfl⟩
  | cons w ws ih =>
    obtain ⟨d₁, hw, hrest⟩ := runAll_cons_eq_ok h
    obtain ⟨checkpoints, rfl⟩ := insertWaypoint_eq_ok hw
    obtain ⟨checkpoints', rfl⟩ := ih hrest
    exact ⟨checkpoints', rfl⟩

/-- A parse that is written adds its rows and updates its map. -/
theorem runAll_parseResult {p : MapParsePipeline} {row : UnparsedMap} {rows : List (BlockRow φ)}
    {ws : List (WaypointRow φ)} {output : Output φ} {d d' : Db φ}
    (h : runAll (parseResultStatements p row rows ws output) d = .ok d') :
    d'.nextId = d.nextId ∧
      d'.maps = d.maps.update (fun r => r.id = row.id) (setSuccess p output) (setSuccess_id p output) ∧
      d'.placements.rows = d.placements.rows ++ rows ∧
      ∀ b ∈ rows, ∃ r ∈ d.maps.rows, r.id = b.mapId := by
  unfold parseResultStatements at h
  obtain ⟨d₂, hfirst, hlast⟩ := runAll_append_eq_ok h
  obtain ⟨d₁, hblocks, hws⟩ := runAll_append_eq_ok hfirst
  obtain ⟨hnext, hmaps, hrows, hall⟩ := runAll_insertBlock hblocks
  obtain ⟨checkpoints, rfl⟩ : ∃ checkpoints, d₂ = { d₁ with checkpoints := checkpoints } := by
    split at hws
    · cases hws
      exact ⟨d₂.checkpoints, rfl⟩
    · obtain ⟨d₃, hdelete, hws⟩ := runAll_cons_eq_ok hws
      obtain ⟨checkpoints, rfl⟩ := runAll_insertWaypoint hws
      cases hdelete
      exact ⟨checkpoints, rfl⟩
  cases hlast
  exact ⟨hnext, by rw [← hmaps], hrows, hall⟩

/-- A parse that is written leaves the sources alone. -/
theorem runAll_sources {p : MapParsePipeline} {row : UnparsedMap} {rows : List (BlockRow φ)}
    {ws : List (WaypointRow φ)} {output : Output φ} {d d' : Db φ}
    (h : runAll (parseResultStatements p row rows ws output) d = .ok d') :
    d'.sources = d.sources := by
  obtain ⟨hnext, hmaps, _⟩ := runAll_parseResult h
  rw [← sources_update d (fun r => r.id = row.id) (setSuccess p output)
    (setSuccess_id p output) fun _ => rfl]
  simp only [Db.sources, hnext, hmaps]

/-! ## One map -/

/-- The output with which a fetched map reaches `_write_success`. -/
def fullParse (row : UnparsedMap) (parse : Parse φ) : Option (Output φ) :=
  if row.needsFullParse then parse.accepted else none

section Step

variable {J J' K : Db φ → Prop} {p : MapParsePipeline} {row : UnparsedMap} {parse : Parse φ}

theorem writeAttempts_spec {sts : List (Statement φ)} {giveUp : Exc → DbConn φ Unit}
    (hsts : ∀ d d', J d → runAll sts d = .ok d' → J' d')
    (hgiveUp : ∀ exc, Keeps (Holds J K) (giveUp exc)) (n : Nat) :
    Triple (Holds J K) (writeAttempts (atomically sts) giveUp n) (fun _ => Either J J' K)
      (Either J J' K) := by
  induction n with
  | zero => exact triple_pure () fun _ h => .inl h
  | succ n ih =>
    refine triple_attempt hsts fun exc => ?_
    split
    · exact ih
    · exact triple_weaken (hgiveUp exc) (fun _ h => h) (fun _ _ h => .inl h) fun _ h => .inl h

/-- What one turn of the loop needs to be kept: the statements that it may send outside a full
parse. A failure is written for a map that needs a full parse, and for any map whose parse did not
succeed; never with the status 'success'. -/
structure KeptOutsideParse (J : Db φ → Prop) (p : MapParsePipeline) (row : UnparsedMap)
    (parse : Parse φ) : Prop where
  failure : row.needsFullParse ∨ parse.accepted = none → ∀ status ≠ .success, ∀ code detail,
    Preserves J (updateFailure p row.id status code detail)
  scenery : row.needsFullParse = false → ∀ output, parse.accepted = some output →
    Preserves J (updateScenery row.id output.scenery)

/-- What every update of a map keeps, as long as its source stays, is kept outside a full parse. -/
theorem keptOutsideParse_of_update
    (h : ∀ d, J d → ∀ p f hf, (∀ r : MapRow, (f r).source = r.source) →
      J { d with maps := d.maps.update p f hf }) : KeptOutsideParse J p row parse where
  failure := by
    intro _ status _ code detail d d' hd hd'
    cases hd'
    exact h d hd _ _ (setFailure_id p status code detail) fun _ => rfl
  scenery := by
    intro _ output _ d d' hd hd'
    cases hd'
    exact h d hd _ _ (setScenery_id output.scenery) fun _ => rfl

theorem keeps_writeFailure (hJ : KeptOutsideParse J p row parse) (hK : KeptOutsideParse K p row parse)
    (hrow : row.needsFullParse ∨ parse.accepted = none) {status : ParseStatus}
    (hstatus : status ≠ .success) (code : ParseErrorCode) (detail : Option String) :
    Keeps (Holds J K) (writeFailure p row.id status code detail) := by
  refine keeps_atomically ?_ ?_ <;> intro st hst <;> rw [List.mem_singleton.mp hst]
  · exact hJ.failure hrow status hstatus code detail
  · exact hK.failure hrow status hstatus code detail

/-- One turn of the loop, whatever its requests meet: either nothing has happened to what is kept
outside a full parse, or the rows and the status of a full parse are committed together. -/
theorem processOne_spec (hJ : KeptOutsideParse J p row parse) (hK : KeptOutsideParse K p row parse)
    (hparse : ∀ output rows ws, fullParse row parse = some output →
      blockRows p row output.blocks = some rows →
      ∀ d d', J d → runAll (parseResultStatements p row rows ws output) d = .ok d' → J' d') :
    Triple (Holds J K) (processOne p row parse) (fun _ => Either J J' K) (Either J J' K) := by
  have hleft : ∀ {m : DbConn φ Unit}, Keeps (Holds J K) m →
      Triple (Holds J K) m (fun _ => Either J J' K) (Either J J' K) := fun hm =>
    triple_weaken hm (fun _ h => h) (fun _ _ h => .inl h) fun _ h => .inl h
  unfold processOne
  cases parse with
  | missing => exact hleft (keeps_writeFailure hJ hK (.inr rfl) (by decide) _ _)
  | crashed typeName text => exact hleft (keeps_writeFailure hJ hK (.inr rfl) (by decide) _ _)
  | returned result =>
    simp only
    cases haccepted : result.accepted with
    | none =>
      have hstatus : result.status ≠ .success := fun h => by
        have hsome := (accepted_isSome_iff result).mpr h
        rw [haccepted] at hsome
        simp at hsome
      exact hleft (keeps_writeFailure hJ hK (.inr haccepted) hstatus _ _)
    | some output =>
      simp only
      split
      · next hneeds =>
        unfold writeSuccess
        cases hrows : blockRows p row output.blocks with
        | none => exact triple_throw _ fun _ h => .inl h
        | some rows =>
          have hfull : fullParse row (.returned result) = some output := by
            rw [fullParse, if_pos hneeds]
            exact haccepted
          exact writeAttempts_spec (hparse output rows _ hfull hrows)
            (fun exc => keeps_writeFailure hJ hK (.inl hneeds) (by decide) _ _) _
      · next hneeds =>
        have hretro : row.needsFullParse = false := by simpa using hneeds
        refine hleft (triple_tryCatch (Q := fun _ => Holds J K) (E := Holds J K) ?_ fun _ =>
          keeps_rollback)
        refine keeps_atomically ?_ ?_ <;> intro st hst <;> rw [List.mem_singleton.mp hst]
        · exact hJ.scenery hretro output haccepted
        · exact hK.scenery hretro output haccepted

end Step

end TraxMania.Parsers
