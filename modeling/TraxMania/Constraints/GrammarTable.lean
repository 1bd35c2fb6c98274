import TraxMania.Constraints.GrammarMining

/-
  What `build_grammar` writes. A packed key is that of one pattern and is unpacked to it, the loop
  that writes puts one row for each kept key into the table whatever the batches and the tries of a
  flush, and a signature is that of one pattern: hence the table says of every pattern how many maps
  of the corpus show it.
-/

namespace TraxMania.Constraints.Mining

open TraxMania.Grid TraxMania.Catalogue Lib Lib.Numpy Lib.PyText

/-! ## Keys and patterns -/

section Keys

variable {names : Interning String} {t : OffsetTable} {w w' : Pattern} {key : Int}

/-- Every key of a map is that of a pattern. -/
theorem exists_hasKey {rows : List GridRow} {read : List Row}
    (h : List.Forall₂ (Reads names.values) rows read) (hfits : GridFits t rows)
    (hkey : key ∈ (callOf t read).keys) : ∃ w : Pattern, w.HasKey names.values t key := by
  have hpos : 0 < countAt (mapPairs read t) key := (mem_callOf_keys read).mp hkey
  rw [count_eq_card (inRange_of_reads h hfits), Finset.card_pos] at hpos
  obtain ⟨ij, hij⟩ := hpos
  obtain ⟨-, -, hbox, hpair⟩ := Finset.mem_filter.mp hij
  obtain ⟨hlength, hget⟩ := List.forall₂_iff_get.mp h
  have hp := hget ij.1 (by omega) ij.1.isLt
  have hq := hget ij.2 (by omega) ij.2.isLt
  have hrel := relRotation_bounds (read.get ij.1) (read.get ij.2)
  refine ⟨⟨_, _, localOffset ((read.get ij.2).pos - (read.get ij.1).pos) (read.get ij.1).rot.val,
    ⟨(relRotation (read.get ij.1) (read.get ij.2)).toNat, by omega⟩⟩,
    OffsetTable.box_localOffset hbox _, _, _, hp.name, hq.name, ?_⟩
  rw [← hpair]
  unfold pairKey keyOf OffsetTable.rotMap
  dsimp only
  rw [Int.toNat_of_nonneg hrel.1]

/-- A key is that of one pattern only. -/
theorem Pattern.HasKey.inj (hfit : 2 ^ 36 * t.size ≤ 2 ^ 63) (h : w.HasKey names.values t key)
    (h' : w'.HasKey names.values t key) : w = w' := by
  have hwide : 2 ^ 36 * t.size ≤ 2 ^ 64 := Nat.le_trans hfit (by decide)
  obtain ⟨A, B, hA, hB, hpack⟩ := h.key
  obtain ⟨A', B', hA', hB', hpack'⟩ := h'.key
  have hrel : ∀ r : Fin 4, 0 ≤ (r.val : Int) ∧ (r.val : Int) < 4 := fun r => by omega
  obtain ⟨hAA, hBB, hrr, hoo⟩ := (packKeys_inj hwide A.isLt B.isLt A'.isLt B'.isLt (hrel _) (hrel _)
    (OffsetTable.index_lt h.box) (OffsetTable.index_lt h'.box)).mp (hpack.symm.trans hpack')
  rw [hAA] at hA
  rw [hBB] at hB
  obtain ⟨a, b, d, r⟩ := w
  obtain ⟨a', b', d', r'⟩ := w'
  obtain rfl : a = a' := Option.some.inj (hA.symm.trans hA')
  obtain rfl : b = b' := Option.some.inj (hB.symm.trans hB')
  obtain rfl : d = d' := (OffsetTable.index_inj h.box).mp hoo
  obtain rfl : r = r' := Fin.ext (Int.natCast_inj.mp hrr)
  rfl

/-- A pattern has one key only. -/
theorem Pattern.HasKey.unique {key' : Int} (h : w.HasKey names.values t key)
    (h' : w.HasKey names.values t key') : key = key' := by
  obtain ⟨A, B, hA, hB, hpack⟩ := h.key
  obtain ⟨A', B', hA', hB', hpack'⟩ := h'.key
  have hid : ∀ {C C' : Fin maxTypes} {name : String}, names.values[C.val]? = some name →
      names.values[C'.val]? = some name → C = C' := by
    intro C C' name hC hC'
    have hsame := (names.agree _ _).mpr hC
    rw [(names.agree _ _).mpr hC'] at hsame
    exact Fin.ext (Option.some.inj hsame).symm
  rw [hpack, hpack', hid hA hA', hid hB hB']

theorem listAt_natCast {α : Type*} (xs : List α) (n : Nat) : listAt xs (n : Int) = xs[n]? :=
  if_pos (Int.natCast_nonneg n)

/-- What the writing loop takes out of the key of a pattern. -/
theorem Pattern.HasKey.unpack (hfit : 2 ^ 36 * t.size ≤ 2 ^ 63) (h : w.HasKey names.values t key) :
    ∃ ta tb oi, unpackKey key t.size = (ta, tb, (w.relRotation.val : Int), oi) ∧
      listAt names.values ta = some w.blockA ∧ listAt names.values tb = some w.blockB ∧
      listAt t.offsets oi = some w.offset := by
  obtain ⟨A, B, hA, hB, hpack⟩ := h.key
  have hfields := KeyFields.unpackKey_pack
    ⟨A, B, w.relRotation, ⟨t.index w.offset, OffsetTable.index_lt h.box⟩⟩ hfit
  refine ⟨A.val, B.val, t.index w.offset, ?_, ?_, ?_, ?_⟩
  · rw [hpack]
    exact hfields
  · rw [listAt_natCast, hA]
  · rw [listAt_natCast, hB]
  · rw [listAt_natCast]
    exact List.getElem?_idxOf (OffsetTable.mem_offsets.mpr h.box)

end Keys

/-! ## Writing -/

/-- Every flush gets through: the connection is lost before the commit only, is opened again, and
one of the tries is answered. -/
def Delivers (canReconnect : Bool) (tries : Nat → Nat → Attempt) : Prop :=
  ∀ call, ∃ k < dbRetries, tries call k = .done ∧ (∀ j < k, tries call j = .lost) ∧
    (0 < k → canReconnect = true)

/-- A statement whose tries are lost until one is answered runs once. -/
theorem withReconnect_eq_ok {S : Type*} {canReconnect : Bool} {tries : Nat → Attempt} {k : Nat}
    (hk : k < dbRetries) (hdone : tries k = .done) (hlost : ∀ j < k, tries j = .lost)
    (hagain : 0 < k → canReconnect = true) (run : S → S) (s : S) :
    withReconnect canReconnect tries run dbRetries s = .ok (run s) := by
  have hloop : ∀ left, dbRetries - left ≤ k → left ≤ dbRetries →
      withReconnect canReconnect tries run left s = .ok (run s) := by
    intro left
    induction left with
    | zero =>
      intro h
      omega
    | succ left ih =>
      intro h hle
      unfold withReconnect
      by_cases heq : dbRetries - (left + 1) = k
      · rw [heq, hdone]
      · rw [hlost _ (by omega)]
        dsimp only
        rw [if_pos (hagain (by omega))]
        exact ih (by omega) (by omega)
  exact hloop dbRetries (by omega) (Nat.le_refl _)

section Writing

variable {sha256 : Text → Text} {canReconnect : Bool} {tries : Nat → Nat → Attempt}
variable {ports : Dict (String × Fin 4) (List Port)} {environment : String} {t : OffsetTable}
variable {names : Interning String}

/-- The table once the batch is written too. -/
def Writing.settled (sha256 : Text → Text) (s : Writing) : GrammarTable :=
  s.batch.foldl (upsertRow sha256) s.table

/-- What the cache holds is what `_clips_meet` answers. -/
def Writing.CacheRight (ports : Dict (String × Fin 4) (List Port)) (t : OffsetTable)
    (names : List String) (s : Writing) : Prop :=
  ∀ k v, s.clipCache.get? k = some v → ∀ a b d, listAt names k.1 = some a →
    listAt names k.2.1 = some b → listAt t.offsets k.2.2.2 = some d →
    v = clipsMeet ports a b d (Fin.ofNat 4 k.2.2.1.toNat)

/-- The row for a pattern with the given counts. -/
def Pattern.row (ports : Dict (String × Fin 4) (List Port)) (environment : String) (w : Pattern)
    (pairCount mapCount : ℕ) : GrammarRow :=
  ⟨w.blockA, w.blockB, w.offset, w.relRotation.val, environment,
    clipsMeet ports w.blockA w.blockB w.offset w.relRotation, pairCount, mapCount, stageVersion⟩

theorem flush_eq_ok (hdelivers : Delivers canReconnect tries) (s : Writing) :
    flush sha256 canReconnect tries s = .ok { s with
      batch := [], table := s.settled sha256, flushes := s.flushes + 1 } := by
  obtain ⟨k, hk, hdone, hlost, hagain⟩ := hdelivers s.flushes
  unfold flush
  rw [withReconnect_eq_ok hk hdone hlost hagain]
  rfl

/-- One key of the loop: its row joins the table, the report counts it. -/
theorem writeKey_eq_ok (hdelivers : Delivers canReconnect tries)
    (hfit : 2 ^ 36 * t.size ≤ 2 ^ 63) {w : Pattern} {e : Int × ℕ × ℕ}
    (hkey : w.HasKey names.values t e.1) {s : Writing}
    (hcache : s.CacheRight ports t names.values) :
    ∃ s', writeKey sha256 canReconnect tries ports environment t names.values s e = .ok s' ∧
      s'.settled sha256 =
        upsertRow sha256 (s.settled sha256) (w.row ports environment e.2.1 e.2.2) ∧
      s'.report = countRow s.report (w.row ports environment e.2.1 e.2.2).clipMatched w.offset ∧
      s'.CacheRight ports t names.values := by
  obtain ⟨ta, tb, oi, hunpack, hA, hB, hoff⟩ := hkey.unpack hfit
  have hturn : Fin.ofNat 4 (w.relRotation.val : Int).toNat = w.relRotation :=
    Fin.ext (Nat.mod_eq_of_lt w.relRotation.isLt)
  have hmatched : (s.clipCache.get? (ta, tb, (w.relRotation.val : Int), oi)).getD
      (clipsMeet ports w.blockA w.blockB w.offset w.relRotation) =
      clipsMeet ports w.blockA w.blockB w.offset w.relRotation := by
    cases hget : s.clipCache.get? (ta, tb, (w.relRotation.val : Int), oi) with
    | none => rfl
    | some v =>
      have hv := hcache _ _ hget _ _ _ hA hB hoff
      rw [hturn] at hv
      exact hv
  unfold writeKey
  rw [hunpack]
  dsimp only
  rw [hA, hB, hoff]
  dsimp only
  rw [hturn, hmatched]
  -- what is cached under the key is the answer
  have hcache' : ∀ k v, (s.clipCache.setdefault (ta, tb, (w.relRotation.val : Int), oi)
      (clipsMeet ports w.blockA w.blockB w.offset w.relRotation)).get? k = some v →
      ∀ a b d, listAt names.values k.1 = some a → listAt names.values k.2.1 = some b →
        listAt t.offsets k.2.2.2 = some d → v = clipsMeet ports a b d (Fin.ofNat 4 k.2.2.1.toNat) := by
    intro k v hv a b d ha hb hd
    unfold Dict.setdefault at hv
    rw [Dict.get?_upsert] at hv
    split at hv
    · next hk =>
      subst hk
      obtain rfl : w.blockA = a := Option.some.inj (hA.symm.trans ha)
      obtain rfl : w.blockB = b := Option.some.inj (hB.symm.trans hb)
      obtain rfl : w.offset = d := Option.some.inj (hoff.symm.trans hd)
      rw [hmatched] at hv
      rw [hturn]
      exact (Option.some.inj hv).symm
    · exact hcache k v hv a b d ha hb hd
  split
  · rw [flush_eq_ok hdelivers]
    refine ⟨_, rfl, ?_, rfl, hcache'⟩
    exact List.foldl_append
  · exact ⟨_, rfl, List.foldl_append, rfl, hcache'⟩

variable (sha256 ports environment) in
/-- The loop that writes. -/
theorem writeKeys_eq_ok (hdelivers : Delivers canReconnect tries)
    (hfit : 2 ^ 36 * t.size ≤ 2 ^ 63) {entries : List (Int × ℕ × ℕ)} {ws : List Pattern}
    (h : List.Forall₂ (fun e w => w.HasKey names.values t e.1) entries ws) {s : Writing}
    (hcache : s.CacheRight ports t names.values) :
    ∃ s', writeKeys sha256 canReconnect tries ports environment t names.values s entries = .ok s' ∧
      s'.settled sha256 = (entries.zipWith (fun e w => w.row ports environment e.2.1 e.2.2) ws).foldl
        (upsertRow sha256) (s.settled sha256) ∧
      s'.report = (entries.zipWith (fun e w => w.row ports environment e.2.1 e.2.2) ws).foldl
        (fun report row => countRow report row.clipMatched row.offset) s.report := by
  induction h generalizing s with
  | nil => exact ⟨s, rfl, rfl, rfl⟩
  | cons hkey _ ih =>
    obtain ⟨s₁, hone, hsettled₁, hreport₁, hcache₁⟩ := writeKey_eq_ok hdelivers hfit hkey hcache
    obtain ⟨s₂, hrest, hsettled₂, hreport₂⟩ := ih hcache₁
    refine ⟨s₂, ?_, ?_, ?_⟩
    · unfold writeKeys
      rw [hone]
      exact hrest
    · rw [hsettled₂, hsettled₁]
      rfl
    · rw [hreport₂, hreport₁]
      rfl

end Writing

/-! ## The rows of the table -/

/-- The block names of a corpus. -/
def corpusNames (maps : List (List GridRow)) : Finset String :=
  (maps.flatten.map GridRow.blockType).toFinset

namespace Pattern

/-- The payload of the signature. -/
def payload (environment : String) (w : Pattern) : Text :=
  ['|'].intercalate (payloadParts w.blockA w.blockB w.offset w.relRotation.val environment)

/-- The primary key of the row for the pattern. -/
def signature (sha256 : Text → Text) (environment : String) (w : Pattern) : Text :=
  pairSignature sha256 w.blockA w.blockB w.offset w.relRotation.val environment

/-- A pattern that the scan of the corpus may come across. -/
structure Known (t : OffsetTable) (maps : List (List GridRow)) (w : Pattern) : Prop where
  box : t.Box w.offset
  blockA : w.blockA ∈ corpusNames maps
  blockB : w.blockB ∈ corpusNames maps

end Pattern

/-- The separator of the payload is in no name. -/
def BarFree (environment : String) (maps : List (List GridRow)) : Prop :=
  '|' ∉ environment.toList ∧ ∀ name ∈ corpusNames maps, '|' ∉ name.toList

/-- No two patterns of the corpus have one digest. -/
def NoCollision (sha256 : Text → Text) (environment : String) (t : OffsetTable)
    (maps : List (List GridRow)) : Prop :=
  Set.InjOn sha256 {text | ∃ w : Pattern, w.Known t maps ∧ w.payload environment = text}

/-- What a fresh table holds after a run: a row for each pattern that enough maps show, with the
number of maps, the number of pairs and whether the clips meet, and no other row. -/
structure TableExact (sha256 : Text → Text) (ports : Dict (String × Fin 4) (List Port))
    (environment : String) (t : OffsetTable) (minMapCount : Int) (maps : List (List GridRow))
    (table : GrammarTable) : Prop where
  row : ∀ w : Pattern, w.Known t maps → table.get? (w.signature sha256 environment) =
    if 0 < w.mapCount maps ∧ minMapCount ≤ w.mapCount maps then
      some (w.row ports environment (w.pairCount maps) (w.mapCount maps))
    else none
  only : ∀ sig ∈ table.keys, ∃ w : Pattern, w.Known t maps ∧ w.signature sha256 environment = sig

/-- The counts of the report are those of the table. -/
structure ReportExact (report : GrammarReport) (maps : List (List GridRow)) (table : GrammarTable) :
    Prop where
  mapsSeen : report.mapsSeen = maps.length
  placementsSeen : report.placementsSeen = (maps.map List.length).sum
  rowsWritten : report.rowsWritten = table.items.length
  clipMatchedRows : report.clipMatchedRows = table.items.countP fun kv => kv.2.clipMatched
  overlayRows : report.overlayRows =
    table.items.countP fun kv => !kv.2.clipMatched && kv.2.offset = ⟨0, 0, 0⟩
  gapRows : report.gapRows = table.items.countP fun kv =>
    !kv.2.clipMatched && decide (1 < max kv.2.offset.x.natAbs kv.2.offset.z.natAbs)

section Signatures

variable {environment : String} {t : OffsetTable} {maps : List (List GridRow)} {w w' : Pattern}

theorem barFree_parts (hbar : BarFree environment maps) (hw : w.Known t maps) :
    ∀ part ∈ payloadParts w.blockA w.blockB w.offset w.relRotation.val environment, '|' ∉ part := by
  unfold payloadParts
  simp only [List.forall_mem_cons]
  exact ⟨hbar.2 _ hw.blockA, hbar.2 _ hw.blockB, notMem_str rfl (by decide) _,
    notMem_str rfl (by decide) _, notMem_str rfl (by decide) _, notMem_str rfl (by decide) _,
    hbar.1, fun part hpart => (List.not_mem_nil hpart).elim⟩

/-- The payload says which pattern it is of. -/
theorem payload_inj (hbar : BarFree environment maps) (hw : w.Known t maps) (hw' : w'.Known t maps)
    (h : w.payload environment = w'.payload environment) : w = w' := by
  have hparts := intercalate_inj (List.cons_ne_nil _ _) (List.cons_ne_nil _ _)
    (barFree_parts hbar hw) (barFree_parts hbar hw') h
  simp only [List.cons.injEq, and_true, String.toList_inj] at hparts
  obtain ⟨hA, hB, hx, hy, hz, hrel⟩ := hparts
  obtain ⟨a, b, d, r⟩ := w
  obtain ⟨a', b', d', r'⟩ := w'
  obtain rfl : a = a' := hA
  obtain rfl : b = b' := hB
  obtain rfl : d = d' := Cell.ext (str_injective hx) (str_injective hy) (str_injective hz)
  obtain rfl : r = r' := Fin.ext (Int.natCast_inj.mp (str_injective hrel))
  rfl

theorem signature_inj {sha256 : Text → Text} (hbar : BarFree environment maps)
    (hsha : NoCollision sha256 environment t maps) (hw : w.Known t maps) (hw' : w'.Known t maps)
    (h : w.signature sha256 environment = w'.signature sha256 environment) : w = w' :=
  payload_inj hbar hw hw' (hsha ⟨w, hw, rfl⟩ ⟨w', hw', rfl⟩ h)

end Signatures

/-- The counts of the report after some rows. -/
theorem report_foldl (rows : List GrammarRow) (report : GrammarReport) :
    rows.foldl (fun report row => countRow report row.clipMatched row.offset) report =
      { report with
        rowsWritten := report.rowsWritten + rows.length
        clipMatchedRows := report.clipMatchedRows + rows.countP GrammarRow.clipMatched
        overlayRows := report.overlayRows +
          rows.countP fun row => !row.clipMatched && row.offset = ⟨0, 0, 0⟩
        gapRows := report.gapRows + rows.countP fun row => !row.clipMatched &&
          decide (1 < max row.offset.x.natAbs row.offset.z.natAbs) } := by
  induction rows generalizing report with
  | nil => rfl
  | cons row rows ih =>
    rw [List.foldl_cons, ih, List.length_cons, List.countP_cons, List.countP_cons, List.countP_cons]
    have hzero : (row.offset.x, row.offset.y, row.offset.z) = (0, 0, 0) ↔
        row.offset = ⟨0, 0, 0⟩ := by
      rw [Cell.ext_iff, Prod.mk.injEq, Prod.mk.injEq]
    unfold countRow
    dsimp only
    by_cases hclip : row.clipMatched
    · simp [hclip, Nat.add_assoc, Nat.add_comm, Nat.add_left_comm]
    · by_cases hoff : row.offset = ⟨0, 0, 0⟩
      · have hgap : ¬ 1 < max row.offset.x.natAbs row.offset.z.natAbs := by
          rw [hoff]
          decide
        simp [hclip, hoff, Nat.add_assoc, Nat.add_comm, Nat.add_left_comm]
      · by_cases hgap : 1 < max row.offset.x.natAbs row.offset.z.natAbs
        · simp [hclip, hzero, hoff, hgap, Nat.add_assoc, Nat.add_comm, Nat.add_left_comm]
        · simp [hclip, hzero, hoff, hgap, Nat.add_comm, Nat.add_left_comm]

/-! ## Pairing lists -/

section Pairing

variable {α β κ : Type*} {R : α → β → Prop} {xs : List α} {ys : List β}

theorem exists_forall₂ (h : ∀ x ∈ xs, ∃ y, R x y) : ∃ ys, List.Forall₂ R xs ys := by
  induction xs with
  | nil => exact ⟨[], .nil⟩
  | cons x xs ih =>
    obtain ⟨y, hy⟩ := h x (by simp)
    obtain ⟨ys, hys⟩ := ih fun x' hx' => h x' (by simp [hx'])
    exact ⟨y :: ys, .cons hy hys⟩

theorem exists_left_of_forall₂ (h : List.Forall₂ R xs ys) {y : β} (hy : y ∈ ys) :
    ∃ x ∈ xs, R x y := by
  induction h with
  | nil => exact (List.not_mem_nil hy).elim
  | cons hxy _ ih =>
    rcases List.mem_cons.mp hy with rfl | hy
    · exact ⟨_, by simp, hxy⟩
    · obtain ⟨x, hx, hR⟩ := ih hy
      exact ⟨x, by simp [hx], hR⟩

theorem exists_right_of_forall₂ (h : List.Forall₂ R xs ys) {x : α} (hx : x ∈ xs) :
    ∃ y ∈ ys, R x y :=
  exists_left_of_forall₂ (List.Forall₂.flip h) hx

/-- What is paired with entries of different keys is different. -/
theorem nodup_of_forall₂ {key : α → κ} (hkey : ∀ x x' y, R x y → R x' y → key x = key x')
    (h : List.Forall₂ R xs ys) (hnodup : (xs.map key).Nodup) : ys.Nodup := by
  induction h with
  | nil => exact List.nodup_nil
  | cons hxy hrest ih =>
    rw [List.map_cons, List.nodup_cons] at hnodup
    rw [List.nodup_cons]
    refine ⟨fun hmem => ?_, ih hnodup.2⟩
    obtain ⟨x', hx', hR⟩ := exists_left_of_forall₂ hrest hmem
    exact hnodup.1 (hkey _ _ _ hxy hR ▸ List.mem_map_of_mem hx')

end Pairing

/-! ## The run -/

section Run

variable {names : Interning String} {t : OffsetTable} {maps : List (List GridRow)}
variable {reads : List (List Row)} {w : Pattern}

/-- A pattern that some map shows has a key that was seen. -/
theorem exists_seen (h : List.Forall₂ (List.Forall₂ (Reads names.values)) maps reads)
    (hfits : ∀ rows ∈ maps, GridFits t rows) (hfit : 2 ^ 36 * t.size ≤ 2 ^ 63)
    (hbox : t.Box w.offset) (hpos : 0 < w.mapCount maps) :
    ∃ key ∈ seenKeys (reads.map (callOf t)), w.HasKey names.values t key := by
  obtain ⟨rows, hrows, hcard⟩ := List.countP_pos_iff.mp hpos
  obtain ⟨read, hread, hall⟩ := exists_right_of_forall₂ h hrows
  have hcard : 0 < (w.pairs rows).card := of_decide_eq_true hcard
  obtain ⟨ij, hij⟩ := Finset.card_pos.mp hcard
  obtain ⟨-, -, hA, hB, -⟩ := Finset.mem_filter.mp hij
  obtain ⟨p, -, hp⟩ := exists_right_of_forall₂ hall (List.get_mem rows ij.1)
  obtain ⟨q, -, hq⟩ := exists_right_of_forall₂ hall (List.get_mem rows ij.2)
  have hpname := hp.name
  have hqname := hq.name
  rw [hA] at hpname
  rw [hB] at hqname
  have hkey : w.HasKey names.values t
      (packKeys p.typeIdx q.typeIdx w.relRotation.val (t.index w.offset) t.size) :=
    ⟨hbox, _, _, hpname, hqname, rfl⟩
  refine ⟨_, (mem_seenKeys _).mpr ⟨callOf t read, List.mem_map_of_mem hread, ?_⟩, hkey⟩
  rw [mem_callOf_keys, countOf_callOf hall (hfits rows hrows) hfit hkey]
  exact hcard

/-- A kept entry and the pattern it is of. -/
structure EntryOf (names : List String) (t : OffsetTable) (minMapCount : Int)
    (maps : List (List GridRow)) (e : Int × ℕ × ℕ) (w : Pattern) : Prop where
  hasKey : w.HasKey names t e.1
  known : w.Known t maps
  counts : e.2 = (w.pairCount maps, w.mapCount maps)
  shown : 0 < w.mapCount maps
  kept : minMapCount ≤ w.mapCount maps

/-- The kept entries of the folded counter. -/
theorem mem_keptEntries {minMapCount : Int} {calls : List (AddCall ℕ)} {e : Int × ℕ × ℕ} :
    e ∈ keptEntries minMapCount (Counter.final calls) ↔ e.1 ∈ seenKeys calls ∧
      e.2 = (sumOf calls e.1, callsWith calls e.1) ∧ minMapCount ≤ (callsWith calls e.1 : Int) := by
  have hzip : (seenKeys calls).zip (((seenKeys calls).map (sumOf calls)).zip
      ((seenKeys calls).map fun k => callsWith calls k)) =
      (seenKeys calls).map fun k => (k, sumOf calls k, callsWith calls k) := by
    have h := List.zip_map' (f := id) (g := fun k => (sumOf calls k, callsWith calls k))
      (l := seenKeys calls)
    rw [List.map_id] at h
    rw [List.zip_map']
    exact h
  have hkept : keptEntries minMapCount (Counter.final calls) =
      ((seenKeys calls).map fun k => (k, sumOf calls k, callsWith calls k)).filter
        fun e => decide (minMapCount ≤ e.2.2) := by
    rw [← hzip]
    rfl
  rw [hkept, List.mem_filter, List.mem_map]
  constructor
  · rintro ⟨⟨k, hk, rfl⟩, hmin⟩
    exact ⟨hk, rfl, of_decide_eq_true hmin⟩
  · rintro ⟨hk, hcounts, hmin⟩
    have he : e = (e.1, sumOf calls e.1, callsWith calls e.1) := Prod.ext rfl hcounts
    refine ⟨⟨e.1, hk, he.symm⟩, ?_⟩
    rw [he]
    exact decide_eq_true hmin

theorem keptEntries_nodup {minMapCount : Int} (calls : List (AddCall ℕ)) :
    ((keptEntries minMapCount (Counter.final calls)).map Prod.fst).Nodup := by
  have hnodup : (seenKeys calls).Nodup := (unique_sorted _).imp fun h => ne_of_lt h
  have hsub : ((keptEntries minMapCount (Counter.final calls)).map Prod.fst).Sublist
      (seenKeys calls) := by
    have hfst : ((seenKeys calls).zip (((seenKeys calls).map (sumOf calls)).zip
        ((seenKeys calls).map fun k => callsWith calls k))).map Prod.fst = seenKeys calls :=
      List.map_fst_zip (by simp)
    have h := (List.filter_sublist (p := fun e : Int × ℕ × ℕ => decide (minMapCount ≤ e.2.2))
      (l := (seenKeys calls).zip (((seenKeys calls).map (sumOf calls)).zip
        ((seenKeys calls).map fun k => callsWith calls k)))).map Prod.fst
    rw [hfst] at h
    exact h
  exact hsub.nodup hnodup

/-- Every kept entry is that of a pattern of the corpus, with the counts of the corpus. -/
theorem exists_entryOf (minMapCount : Int) {s : Mined}
    (hgood : s.Good (corpusNames maps) t maps reads)
    (hfits : ∀ rows ∈ maps, GridFits t rows) (hfit : 2 ^ 36 * t.size ≤ 2 ^ 63) {e : Int × ℕ × ℕ}
    (he : e ∈ keptEntries minMapCount (Counter.final (reads.map (callOf t)))) :
    ∃ w, EntryOf s.types.names.values t minMapCount maps e w := by
  obtain ⟨hseen, hcounts, hmin⟩ := mem_keptEntries.mp he
  obtain ⟨call, hcall, hkey⟩ := (mem_seenKeys _).mp hseen
  obtain ⟨read, hread, rfl⟩ := List.mem_map.mp hcall
  obtain ⟨rows, hrows, hall⟩ := exists_left_of_forall₂ hgood.readAll hread
  obtain ⟨w, hw⟩ := exists_hasKey hall (hfits rows hrows) hkey
  obtain ⟨hsum, hcalls⟩ := sumOf_eq hgood.readAll hfits hfit hw
  have hpos : 0 < callsWith (reads.map (callOf t)) e.1 :=
    List.countP_pos_iff.mpr ⟨callOf t read, hcall, decide_eq_true hkey⟩
  obtain ⟨A, B, hA, hB, -⟩ := hw.key
  rw [hcalls] at hpos hmin
  rw [hsum, hcalls] at hcounts
  exact ⟨w, hw, ⟨hw.box, hgood.within _ (List.mem_of_getElem? hA),
    hgood.within _ (List.mem_of_getElem? hB)⟩, hcounts, hpos, hmin⟩

/-- The rows that are written are those of the patterns, with the counts of the corpus. -/
theorem zipWith_row {names : List String} {minMapCount : Int} {entries : List (Int × ℕ × ℕ)}
    {ws : List Pattern} (h : List.Forall₂ (EntryOf names t minMapCount maps) entries ws)
    (ports : Dict (String × Fin 4) (List Port)) (environment : String) :
    entries.zipWith (fun e w => w.row ports environment e.2.1 e.2.2) ws =
      ws.map fun w => w.row ports environment (w.pairCount maps) (w.mapCount maps) := by
  induction h with
  | nil => rfl
  | cons he _ ih => rw [List.zipWith_cons_cons, List.map_cons, ih, he.counts]

end Run

section Table

variable {sha256 : Text → Text} {ports : Dict (String × Fin 4) (List Port)} {environment : String}
variable {t : OffsetTable} {minMapCount : Int} {maps : List (List GridRow)} {ws : List Pattern}

variable (ports) in
/-- Rows of different patterns go into a fresh table one after the other. -/
theorem items_upsertRows (hbar : BarFree environment maps)
    (hsha : NoCollision sha256 environment t maps) (hknown : ∀ w ∈ ws, w.Known t maps)
    (hnodup : ws.Nodup) :
    ((ws.map fun w => w.row ports environment (w.pairCount maps) (w.mapCount maps)).foldl
      (upsertRow sha256) Dict.empty).items = ws.map fun w => (w.signature sha256 environment,
        w.row ports environment (w.pairCount maps) (w.mapCount maps)) := by
  have hsigs : ((ws.map fun w => w.row ports environment (w.pairCount maps) (w.mapCount maps)).map
      fun row => pairSignature sha256 row.blockA row.blockB row.offset row.relRotation
        row.environment).Nodup := by
    rw [List.map_map]
    exact List.Nodup.map_on
      (fun w hw w' hw' => signature_inj hbar hsha (hknown w hw) (hknown w' hw')) hnodup
  unfold upsertRow
  refine (Dict.items_foldl_of_nodup hsigs fun _ _ hmem => (List.not_mem_nil hmem).elim).trans ?_
  rw [List.map_map]
  rfl

/-- The table with the rows of the patterns that enough maps show. -/
theorem tableExact_of_items (hbar : BarFree environment maps)
    (hsha : NoCollision sha256 environment t maps) (hknown : ∀ w ∈ ws, w.Known t maps)
    (hws : ∀ w, w.Known t maps →
      (w ∈ ws ↔ 0 < w.mapCount maps ∧ minMapCount ≤ w.mapCount maps)) {table : GrammarTable}
    (hitems : table.items = ws.map fun w => (w.signature sha256 environment,
      w.row ports environment (w.pairCount maps) (w.mapCount maps))) :
    TableExact sha256 ports environment t minMapCount maps table where
  row := by
    intro w hw
    split
    · next hcond =>
      refine Dict.get?_eq_some ?_
      rw [hitems]
      exact List.mem_map.mpr ⟨w, (hws w hw).mpr hcond, rfl⟩
    · next hcond =>
      refine Option.eq_none_iff_forall_ne_some.mpr fun row hrow => hcond ?_
      have hmem := Dict.mem_items_of_get? hrow
      rw [hitems] at hmem
      obtain ⟨w', hw', heq⟩ := List.mem_map.mp hmem
      have hsame := signature_inj hbar hsha (hknown w' hw') hw (congrArg Prod.fst heq)
      rw [hsame] at hw'
      exact (hws w hw).mp hw'
  only := by
    intro sig hsig
    obtain ⟨row, hrow⟩ := Dict.mem_keys.mp hsig
    rw [hitems] at hrow
    obtain ⟨w, hw, heq⟩ := List.mem_map.mp hrow
    exact ⟨w, hknown w hw, congrArg Prod.fst heq⟩

end Table

/-! ## A whole run -/

section Build

variable {sha256 : Text → Text} {canReconnect : Bool} {tries : Nat → Nat → Attempt}
variable {catalogue : Dict String BlockDef} {environment : String} {t : OffsetTable}
variable {minMapCount compactEvery : Int} {maps : List (List PlacementRow)}

/-- What a run needs of the corpus, the digest and the database: no more block types than the key
has room for, coordinates and a neighbourhood that fit the packed words, no name with the separator,
no two patterns with one digest, and flushes that get through. -/
structure Mineable (sha256 : Text → Text) (canReconnect : Bool) (tries : Nat → Nat → Attempt)
    (environment : String) (t : OffsetTable) (maps : List (List PlacementRow)) : Prop where
  room : (corpusNames (gridMaps maps)).card ≤ maxTypes
  fits : ∀ rows ∈ gridMaps maps, GridFits t rows
  fit : 2 ^ 36 * t.size ≤ 2 ^ 63
  bar : BarFree environment (gridMaps maps)
  sha : NoCollision sha256 environment t (gridMaps maps)
  delivers : Delivers canReconnect tries

variable (catalogue minMapCount compactEvery) in
/-- A run over a fresh table succeeds, and writes the rows of the patterns that enough maps show. -/
theorem buildGrammar_items (h : Mineable sha256 canReconnect tries environment t maps) :
    ∃ table report, ∃ ws : List Pattern,
      buildGrammar sha256 canReconnect tries catalogue environment t minMapCount compactEvery maps
        Dict.empty = .ok (table, report) ∧
      (∀ w ∈ ws, w.Known t (gridMaps maps)) ∧
      (∀ w : Pattern, w.Known t (gridMaps maps) → (w ∈ ws ↔
        0 < w.mapCount (gridMaps maps) ∧ minMapCount ≤ w.mapCount (gridMaps maps))) ∧
      table.items = (ws.map fun w => (w.signature sha256 environment,
        w.row (clipPortIndex catalogue) environment (w.pairCount (gridMaps maps))
          (w.mapCount (gridMaps maps)))) ∧
      ∃ scanned distinct, report = (table.items.map Prod.snd).foldl
        (fun report row => countRow report row.clipMatched row.offset)
        ⟨(gridMaps maps).length, ((gridMaps maps).map List.length).sum, scanned, distinct, 0, 0, 0,
          0⟩ := by
  have hnames : ∀ rows ∈ gridMaps maps, ∀ r ∈ rows, r.blockType ∈ corpusNames (gridMaps maps) :=
    fun rows hrows r hr => List.mem_toFinset.mpr
      (List.mem_map_of_mem (List.mem_flatten.mpr ⟨rows, hrows, hr⟩))
  obtain ⟨mined, reads, hmine, hgood⟩ := mineMaps_eq_ok compactEvery h.room
    (gridMaps maps) hnames (Mined.good_start (corpusNames (gridMaps maps)) t)
  rw [List.nil_append] at hgood
  have hcounter : mined.counter.compact = Counter.final (reads.map (callOf t)) :=
    hgood.counter.compact_eq
  obtain ⟨ws, hws⟩ := exists_forall₂ fun e he =>
    exists_entryOf minMapCount hgood h.fits h.fit (e := e) he
  have hkeys := hws.imp fun _ _ he => he.hasKey
  have hnodup : ws.Nodup := nodup_of_forall₂ (fun _ _ _ he he' => he.unique he') hkeys
    (keptEntries_nodup _)
  have hknown : ∀ w ∈ ws, w.Known t (gridMaps maps) := by
    intro w hw
    obtain ⟨e, -, he⟩ := exists_left_of_forall₂ hws hw
    exact he.known
  have hmem : ∀ w : Pattern, w.Known t (gridMaps maps) → (w ∈ ws ↔
      0 < w.mapCount (gridMaps maps) ∧ minMapCount ≤ w.mapCount (gridMaps maps)) := by
    intro w hw
    constructor
    · intro hin
      obtain ⟨e, -, he⟩ := exists_left_of_forall₂ hws hin
      exact ⟨he.shown, he.kept⟩
    · rintro ⟨hpos, hmin⟩
      obtain ⟨key, hseen, hkey⟩ := exists_seen hgood.readAll h.fits h.fit hw.box hpos
      obtain ⟨-, hcalls⟩ := sumOf_eq hgood.readAll h.fits h.fit hkey
      have hentry : (key, sumOf (reads.map (callOf t)) key, callsWith (reads.map (callOf t)) key) ∈
          keptEntries minMapCount (Counter.final (reads.map (callOf t))) := by
        refine mem_keptEntries.mpr ⟨hseen, rfl, ?_⟩
        rw [hcalls]
        exact hmin
      obtain ⟨w', hw', he⟩ := exists_right_of_forall₂ hws hentry
      rw [hkey.inj h.fit he.hasKey]
      exact hw'
  obtain ⟨s, hwrite, hsettled, hreport⟩ := writeKeys_eq_ok sha256
    (clipPortIndex catalogue) environment h.delivers h.fit hkeys
    (s := ⟨Dict.empty, [], { mined.report with distinctKeys := mined.counter.compact.keys.length },
      Dict.empty, 0⟩) fun _ _ hget => nomatch hget
  rw [zipWith_row hws] at hsettled hreport
  have htable := (congrArg Dict.items hsettled).trans
    (items_upsertRows (clipPortIndex catalogue) h.bar h.sha hknown hnodup)
  have hrows : (s.settled sha256).items.map Prod.snd = ws.map fun w =>
      w.row (clipPortIndex catalogue) environment (w.pairCount (gridMaps maps))
        (w.mapCount (gridMaps maps)) := by
    rw [htable, List.map_map]
    rfl
  refine ⟨s.settled sha256, s.report, ws, ?_, hknown, hmem, htable,
    (reads.map fun read => (mapPairs read t).2.sum).sum, mined.counter.compact.keys.length, ?_⟩
  · unfold buildGrammar
    rw [hmine]
    dsimp only [bind, Except.bind]
    rw [hcounter] at hwrite ⊢
    rw [hwrite]
    dsimp only
    split
    · next hempty =>
      have hsame : s.settled sha256 = s.table := by
        unfold Writing.settled
        rw [hempty]
        rfl
      rw [hsame]
      rfl
    · rw [flush_eq_ok h.delivers]
      rfl
  · rw [hreport, hrows, hgood.report]

/-- The report counts the rows of the table. -/
theorem reportExact_of_fold {table : GrammarTable} {scanned distinct : Nat}
    {grid : List (List GridRow)} {report : GrammarReport}
    (h : report = (table.items.map Prod.snd).foldl
      (fun report row => countRow report row.clipMatched row.offset)
      ⟨grid.length, (grid.map List.length).sum, scanned, distinct, 0, 0, 0, 0⟩) :
    ReportExact report grid table := by
  rw [report_foldl] at h
  simp only [List.length_map, List.countP_map, Nat.zero_add] at h
  subst h
  exact ⟨rfl, rfl, rfl, rfl, rfl, rfl⟩

/-- A run over a fresh table succeeds, the table has exactly one row for each pattern that at least
`minMapCount` maps show, with the number of these maps and of the pairs in them, and the report
counts its rows. -/
theorem buildGrammar_exact (h : Mineable sha256 canReconnect tries environment t maps) :
    ∃ table report, buildGrammar sha256 canReconnect tries catalogue environment t minMapCount
        compactEvery maps Dict.empty = .ok (table, report) ∧
      TableExact sha256 (clipPortIndex catalogue) environment t minMapCount (gridMaps maps) table ∧
      ReportExact report (gridMaps maps) table := by
  obtain ⟨table, report, ws, hbuild, hknown, hmem, hitems, scanned, distinct, hreport⟩ :=
    buildGrammar_items catalogue minMapCount compactEvery h
  exact ⟨table, report, hbuild, tableExact_of_items h.bar h.sha hknown hmem hitems,
    reportExact_of_fold hreport⟩

end Build

/-- Two maps with a gate over a road, and one try of each flush lost. -/
theorem buildGrammar_exact_gates :
    let maps : List (List PlacementRow) := [
      [⟨"Road", 1, some (-3), some 9, some 4, false⟩, ⟨"Gate", 0, some (-3), some 9, some 4, false⟩],
      [⟨"Gate", 3, some 8, some 9, some 1, false⟩, ⟨"Road", 0, some 8, some 9, some 1, false⟩,
        ⟨"Wall", 0, none, none, none, true⟩]]
    ∃ table report, buildGrammar id true (fun _ k => if k = 0 then .lost else .done) Dict.empty
        "Stadium2020" ⟨3, 2⟩ 2 4000000 maps Dict.empty = .ok (table, report) ∧
      TableExact id (clipPortIndex Dict.empty) "Stadium2020" ⟨3, 2⟩ 2 (gridMaps maps) table ∧
      ReportExact report (gridMaps maps) table := by
  intro maps
  refine buildGrammar_exact ⟨by decide, ?_, ?_, ?_, Set.injOn_id _, fun call => ?_⟩
  · unfold GridFits Fits
    decide
  · rw [OffsetTable.size_eq]
    decide
  · unfold BarFree
    decide
  · exact ⟨1, by decide, rfl, fun j hj => if_pos (by omega), fun _ => rfl⟩

end TraxMania.Constraints.Mining
