import TraxMania.Corridor.VirtualEdges

/-
  One turn of `while stack`, from any state in which no target is marked: what each kind of turn
  leaves on the stack, in the marks and in the paths, and with what the loop is left.
-/

namespace TraxMania.Corridor

open TraxMania.Grid Lib.Loop

variable {α : Type*} [DecidableEq α]

namespace Query

/-! ## The states of the search -/

/-- Where `while stack` starts, from the source `s`. -/
def begun (acc : List (List α) × Finset α) (s : α) : Search α :=
  ⟨acc.1, insert s acc.2, [⟨s, [s], 0⟩]⟩

/-- `while stack` goes from one state to the other. -/
def Passes (q : Query α) : Search α → Search α → Prop :=
  Relation.ReflTransGen fun st st' => q.turn st = .inr st'

variable {q : Query α}

/-! ## What a turn does -/

@[simp] theorem backtrack_paths (c : α) (st : Search α) : (q.backtrack c st).paths = st.paths := by
  unfold backtrack
  split <;> rfl

@[simp] theorem backtrack_stack (c : α) (st : Search α) : (q.backtrack c st).stack = st.stack := by
  unfold backtrack
  split <;> rfl

theorem mem_of_mem_backtrack {c x : α} {st : Search α} (h : x ∈ (q.backtrack c st).visited) :
    x ∈ st.visited := by
  unfold backtrack at h
  split at h
  · exact h
  · exact Finset.mem_of_mem_erase h

theorem mem_backtrack_of_ne {c x : α} {st : Search α} (h : x ∈ st.visited) (hx : x ≠ c) :
    x ∈ (q.backtrack c st).visited := by
  unfold backtrack
  split
  · exact h
  · exact Finset.mem_erase.mpr ⟨hx, h⟩

/-- A cell beside a target keeps its mark: the target is never marked. -/
theorem mem_backtrack_of_touches {c t : α} {st : Search α} (hV : q.Unmarked st)
    (h : c ∈ st.visited) (ht : t ∈ q.neighbors c) (hT : q.IsTarget t) :
    c ∈ (q.backtrack c st).visited := by
  have hany : (q.neighbors c).any (fun nb => decide (nb ∉ st.visited)) = true :=
    List.any_eq_true.mpr ⟨t, ht, decide_eq_true fun hmem => hV t hmem hT⟩
  unfold backtrack
  rw [if_pos hany]
  exact h

/-- The hard cap is reached. -/
theorem turn_full {st : Search α} {e : Entry α} {rest : List (Entry α)}
    (hst : st.stack = e :: rest) (hps : ¬ (st.paths.length : Int) < q.hardCap) :
    q.turn st = .inl (.error st.paths) := by
  unfold turn expand
  rw [hst]
  dsimp only
  rw [if_pos (by omega)]

theorem turn_empty {st : Search α} (hst : st.stack = []) : q.turn st = .inl (.ok st) := by
  unfold turn
  rw [hst]

/-- What one turn can do. -/
theorem turn_cases {st : Search α} (hV : q.Unmarked st) :
    q.turn st = .inl (.ok st) ∨ q.turn st = .inl (.error st.paths) ∨
      ∃ e rest, st.stack = e :: rest ∧
        (q.turn st = .inr { st with visited := st.visited.erase e.current, stack := rest } ∨
          (e.depth : Int) < q.depthCap ∧ (st.paths.length : Int) < q.hardCap ∧
            q.turn st = if ((q.scanned st e).length : Int) < q.hardCap then
                .inr (q.afterScan st e rest)
              else .inl (.error ((q.scanned st e).take q.hardCap.toNat))) := by
  cases hst : st.stack with
  | nil => exact .inl (turn_empty hst)
  | cons e rest =>
    refine .inr ?_
    by_cases hps : (st.paths.length : Int) < q.hardCap
    · refine .inr ⟨e, rest, rfl, ?_⟩
      by_cases hdepth : (e.depth : Int) < q.depthCap
      · exact .inr ⟨hdepth, hps, turn_scan hst hps hdepth hV⟩
      · exact .inl (turn_deep hst hps hdepth)
    · exact .inl (turn_full hst hps)

theorem turn_inr_cases {st st' : Search α} (h : q.turn st = .inr st') (hV : q.Unmarked st) :
    ∃ e rest, st.stack = e :: rest ∧
      (st' = { st with visited := st.visited.erase e.current, stack := rest } ∨
        (e.depth : Int) < q.depthCap ∧ ((q.scanned st e).length : Int) < q.hardCap ∧
          st' = q.afterScan st e rest) := by
  rcases turn_cases hV with ht | ht | ⟨e, rest, hst, ht | ⟨hdepth, -, ht⟩⟩
  · rw [ht] at h
    cases h
  · rw [ht] at h
    cases h
  · rw [ht] at h
    exact ⟨e, rest, hst, .inl (Sum.inr.inj h).symm⟩
  · rw [ht] at h
    split at h
    · next hlt => exact ⟨e, rest, hst, .inr ⟨hdepth, hlt, (Sum.inr.inj h).symm⟩⟩
    · cases h

/-- The paths with which `while stack` is left. -/
def exitPaths : Except (List (List α)) (Search α) → List (List α)
  | .error paths => paths
  | .ok st => st.paths

theorem turn_inl_cases {st : Search α} {out : Except (List (List α)) (Search α)}
    (h : q.turn st = .inl out) (hV : q.Unmarked st) :
    exitPaths out = st.paths ∨
      ∃ e rest, st.stack = e :: rest ∧ (e.depth : Int) < q.depthCap ∧
        (st.paths.length : Int) < q.hardCap ∧
          exitPaths out = (q.scanned st e).take q.hardCap.toNat := by
  rcases turn_cases hV with ht | ht | ⟨e, rest, hst, ht | ⟨hdepth, hps, ht⟩⟩
  · rw [ht] at h
    cases h
    exact .inl rfl
  · rw [ht] at h
    cases h
    exact .inl rfl
  · rw [ht] at h
    cases h
  · rw [ht] at h
    split at h
    · cases h
    · cases h
      exact .inr ⟨e, rest, hst, hdepth, hps, rfl⟩

/-- The loop is left without a `return` only when the stack is empty, in the state as it is. -/
theorem eq_of_turn_ok {st st' : Search α} (h : q.turn st = .inl (.ok st')) (hV : q.Unmarked st) :
    st = st' := by
  rcases turn_cases hV with ht | ht | ⟨e, rest, hst, ht | ⟨-, -, ht⟩⟩
  · exact Except.ok.inj (Sum.inl.inj (ht.symm.trans h))
  · exact absurd (Sum.inl.inj (ht.symm.trans h)) (by simp)
  · exact absurd (ht.symm.trans h) (by simp)
  · rw [ht] at h
    split at h
    · cases h
    · cases h

theorem scanned_take {st : Search α} (hps : (st.paths.length : Int) < q.hardCap) (e : Entry α) :
    (q.scanned st e).take q.hardCap.toNat = st.paths ++
      ((q.hits (q.neighbors e.current)).take (q.hardCap - st.paths.length).toNat).map
        (e.path ++ [·]) := by
  have hroom : q.hardCap.toNat - st.paths.length = (q.hardCap - st.paths.length).toNat := by omega
  unfold scanned
  rw [List.take_append, List.take_of_length_le (by omega), hroom, List.map_take]

@[simp] theorem afterScan_paths (st : Search α) (e : Entry α) (rest : List (Entry α)) :
    (q.afterScan st e rest).paths = q.scanned st e := backtrack_paths _ _

@[simp] theorem afterScan_stack (st : Search α) (e : Entry α) (rest : List (Entry α)) :
    (q.afterScan st e rest).stack =
      ((pushes q.IsTarget st.visited (q.neighbors e.current)).map
        (pushed e.path e.depth)).reverse ++ rest := backtrack_stack _ _

theorem afterScan_currents (st : Search α) (e : Entry α) (rest : List (Entry α)) :
    (q.afterScan st e rest).stack.map Entry.current =
      (pushes q.IsTarget st.visited (q.neighbors e.current)).reverse ++
        rest.map Entry.current := by
  rw [afterScan_stack, List.map_append, List.map_reverse, List.map_map]
  congr 2
  exact List.map_id _

/-- A scan marks no target. -/
theorem Unmarked.union_pushes {st : Search α} (hV : q.Unmarked st) (nbs : List α) :
    ∀ x ∈ st.visited ∪ (pushes q.IsTarget st.visited nbs).toFinset, ¬ q.IsTarget x := by
  intro x hx
  rcases Finset.mem_union.mp hx with hx | hx
  · exact hV x hx
  · exact (mem_pushes.mp (List.mem_toFinset.mp hx)).2.2

theorem Unmarked.afterScan {st : Search α} (hV : q.Unmarked st) (e : Entry α)
    (rest : List (Entry α)) : q.Unmarked (q.afterScan st e rest) :=
  fun x hx => hV.union_pushes _ x (mem_of_mem_backtrack hx)

theorem Unmarked.turn {st st' : Search α} (hV : q.Unmarked st) (h : q.turn st = .inr st') :
    q.Unmarked st' := by
  obtain ⟨e, rest, -, rfl | ⟨-, -, rfl⟩⟩ := turn_inr_cases h hV
  · exact fun x hx => hV x (Finset.mem_of_mem_erase hx)
  · exact hV.afterScan e rest

theorem paths_prefix_turn {st st' : Search α} (hV : q.Unmarked st) (h : q.turn st = .inr st') :
    st.paths <+: st'.paths := by
  obtain ⟨e, rest, -, rfl | ⟨-, -, rfl⟩⟩ := turn_inr_cases h hV
  · exact List.prefix_rfl
  · rw [afterScan_paths]
    exact List.prefix_append _ _

end Query

end TraxMania.Corridor

/-
  When the enumerator returns a path twice.

  A cell that touches a target keeps its mark once it is searched, so no search comes to it a second
  time and each path that is recorded there is new. What is left is the scan of one cell: it records
  a target as often as the target is listed, and a seed neighbour that was also observed together
  with the cell is listed twice.
-/

namespace TraxMania.Corridor

open TraxMania.Grid Lib.Loop

variable {α : Type*} [DecidableEq α]

namespace Query

/-- The states in which a turn of `while stack` begins, over all sources. -/
def Visits (q : Query α) (sources : FrozenSet α) (st : Search α) : Prop :=
  ∃ (pre : List α) (s : α) (post : List α) (acc : List (List α) × Finset α),
    sources.elems = pre ++ s :: post ∧ pre.foldlM q.fromSource ([], ∅) = .ok acc ∧
      ¬ q.IsTarget s ∧ q.Passes (begun acc s) st

/-- In the turn from `st` no target is recorded twice: as far as the hard cap lets the scan go, each
    target is listed once among the neighbours of the cell just popped. -/
def TurnClear (q : Query α) (st : Search α) : Prop :=
  ∀ e ∈ st.stack.head?, (e.depth : Int) < q.depthCap →
    ((q.hits (q.neighbors e.current)).take (q.hardCap - st.paths.length).toNat).Nodup

variable {q : Query α}

/-! ## Each path is new -/

/-- The search from `s`, after the sources of `S`: a path recorded from `s` ends, before its target,
    in a cell that is marked and not on the stack. -/
structure Once (q : Query α) (S : List α) (s : α) (st : Search α) : Prop where
  unmarked : q.Unmarked st
  entries : ∀ e ∈ st.stack, e.current ∈ st.visited ∧ e.path.head? = some s ∧
    e.path.getLast? = some e.current
  currents : (st.stack.map Entry.current).Nodup
  met : ∀ p ∈ st.paths, p.head? = some s →
    ∃ c ∈ p.dropLast.getLast?, c ∈ st.visited ∧ c ∉ st.stack.map Entry.current
  heads : ∀ p ∈ st.paths, ∃ x ∈ S ++ [s], p.head? = some x
  once : st.paths.Nodup

theorem Once.begun {S : List α} {s : α} {acc : List (List α) × Finset α} (hs : s ∉ S)
    (hT : ¬ q.IsTarget s) (hV : ∀ x ∈ acc.2, ¬ q.IsTarget x)
    (hheads : ∀ p ∈ acc.1, ∃ x ∈ S, p.head? = some x) (honce : acc.1.Nodup) :
    q.Once S s (begun acc s) where
  unmarked := by
    intro x hx
    rcases Finset.mem_insert.mp hx with rfl | hx
    · exact hT
    · exact hV x hx
  entries := by
    intro e he
    rw [List.mem_singleton.mp he]
    exact ⟨Finset.mem_insert_self s acc.2, rfl, rfl⟩
  currents := List.nodup_singleton s
  met := by
    intro p hp hhead
    obtain ⟨x, hx, hpx⟩ := hheads p hp
    rw [hpx] at hhead
    exact absurd (Option.some.inj hhead ▸ hx) hs
  heads := by
    intro p hp
    obtain ⟨x, hx, hpx⟩ := hheads p hp
    exact ⟨x, List.mem_append_left _ hx, hpx⟩
  once := honce

omit [DecidableEq α] in
theorem head?_concat_of {path : List α} {s t : α} (h : path.head? = some s) :
    (path ++ [t]).head? = some s := by
  rw [List.head?_append, h]
  rfl

omit [DecidableEq α] in
/-- What a scan records is new. -/
theorem Once.scan_nodup {S : List α} {s : α} {st : Search α} (h : q.Once S s st) {e : Entry α}
    (he : e ∈ st.stack) {ts : List α} (hts : ts.Nodup) :
    (st.paths ++ ts.map (e.path ++ [·])).Nodup := by
  obtain ⟨-, hhead, hlast⟩ := h.entries e he
  refine List.nodup_append.mpr ⟨h.once, ?_, ?_⟩
  · exact hts.map fun t t' htt => List.singleton_inj.mp (List.append_cancel_left htt)
  · rintro p hp p' hp' rfl
    obtain ⟨t, -, rfl⟩ := List.mem_map.mp hp'
    obtain ⟨c, hc, -, hstack⟩ := h.met _ hp (head?_concat_of hhead)
    rw [List.dropLast_concat, hlast, Option.mem_some_iff] at hc
    subst hc
    exact hstack (List.mem_map_of_mem he)

/-- The entry at the cap is dropped. -/
theorem Once.drop {S : List α} {s : α} {st : Search α} (h : q.Once S s st) {e : Entry α}
    {rest : List (Entry α)} (hst : st.stack = e :: rest) :
    q.Once S s { st with visited := st.visited.erase e.current, stack := rest } := by
  have hcurrents := h.currents
  rw [hst, List.map_cons, List.nodup_cons] at hcurrents
  refine ⟨fun x hx => h.unmarked x (Finset.mem_of_mem_erase hx), ?_, hcurrents.2, ?_, h.heads,
    h.once⟩
  · intro e' he'
    obtain ⟨hmark, hpath⟩ := h.entries e' (hst ▸ List.mem_cons_of_mem e he')
    refine ⟨Finset.mem_erase.mpr ⟨fun heq => hcurrents.1 ?_, hmark⟩, hpath⟩
    exact heq ▸ List.mem_map_of_mem he'
  · intro p hp hhead
    obtain ⟨c, hc, hmark, hstack⟩ := h.met p hp hhead
    rw [hst, List.map_cons, List.mem_cons, not_or] at hstack
    exact ⟨c, hc, Finset.mem_erase.mpr ⟨hstack.1, hmark⟩, hstack.2⟩

section Scan

variable {S : List α} {s : α} {st : Search α} {e : Entry α} {rest : List (Entry α)}

omit [DecidableEq α] in
/-- Behind the scanned entry stand other cells, all marked. -/
theorem Once.behind (h : q.Once S s st) (hst : st.stack = e :: rest) :
    e.current ∉ rest.map Entry.current ∧ (rest.map Entry.current).Nodup ∧
      ∀ e' ∈ rest, e'.current ∈ st.visited := by
  have hcurrents := h.currents
  rw [hst, List.map_cons, List.nodup_cons] at hcurrents
  exact ⟨hcurrents.1, hcurrents.2,
    fun e' he' => (h.entries e' (hst ▸ List.mem_cons_of_mem e he')).1⟩

theorem Once.entries_scan (h : q.Once S s st) (hst : st.stack = e :: rest) :
    ∀ e' ∈ (q.afterScan st e rest).stack, e'.current ∈ (q.afterScan st e rest).visited ∧
      e'.path.head? = some s ∧ e'.path.getLast? = some e'.current := by
  obtain ⟨hmark, hhead, -⟩ := h.entries e (hst ▸ List.mem_cons_self)
  obtain ⟨hnew, -, -⟩ := h.behind hst
  intro e' he'
  rw [afterScan_stack] at he'
  rcases List.mem_append.mp he' with he' | he'
  · obtain ⟨k, hk, rfl⟩ := List.mem_map.mp (List.mem_reverse.mp he')
    have hne : k ≠ e.current := fun heq => (mem_pushes.mp hk).2.1 (heq ▸ hmark)
    refine ⟨mem_backtrack_of_ne (Finset.mem_union_right _ (List.mem_toFinset.mpr hk)) hne,
      head?_concat_of hhead, ?_⟩
    exact List.getLast?_concat
  · obtain ⟨hmark', hpath⟩ := h.entries e' (hst ▸ List.mem_cons_of_mem e he')
    refine ⟨mem_backtrack_of_ne (Finset.mem_union_left _ hmark') fun heq => hnew ?_, hpath⟩
    exact heq ▸ List.mem_map_of_mem he'

theorem Once.currents_scan (h : q.Once S s st) (hst : st.stack = e :: rest) :
    ((q.afterScan st e rest).stack.map Entry.current).Nodup := by
  obtain ⟨-, hnodup, hmarks⟩ := h.behind hst
  rw [afterScan_currents, List.nodup_append]
  refine ⟨List.nodup_reverse.mpr (nodup_pushes _ _), hnodup, ?_⟩
  rintro x hx y hy rfl
  obtain ⟨e', he', rfl⟩ := List.mem_map.mp hy
  exact (mem_pushes.mp (List.mem_reverse.mp hx)).2.1 (hmarks e' he')

/-- A recorded path from `s` ends, before its target, in the scanned cell or in one met before. -/
theorem Once.met_scan (h : q.Once S s st) (hst : st.stack = e :: rest) :
    ∀ p ∈ (q.afterScan st e rest).paths, p.head? = some s →
      ∃ c ∈ p.dropLast.getLast?, c ∈ (q.afterScan st e rest).visited ∧
        c ∉ (q.afterScan st e rest).stack.map Entry.current := by
  obtain ⟨hmark, -, hlast⟩ := h.entries e (hst ▸ List.mem_cons_self)
  obtain ⟨hnew, -, -⟩ := h.behind hst
  -- what is pushed was not marked before
  have hfresh : ∀ x ∈ st.visited, x ∉ rest.map Entry.current →
      x ∉ (q.afterScan st e rest).stack.map Entry.current := by
    intro x hx hrest
    rw [afterScan_currents, List.mem_append, not_or]
    exact ⟨fun hk => (mem_pushes.mp (List.mem_reverse.mp hk)).2.1 hx, hrest⟩
  intro p hp hhead
  rw [afterScan_paths] at hp
  rcases List.mem_append.mp hp with hp | hp
  · obtain ⟨c, hc, hcmark, hcstack⟩ := h.met p hp hhead
    rw [hst, List.map_cons, List.mem_cons, not_or] at hcstack
    exact ⟨c, hc, mem_backtrack_of_ne (Finset.mem_union_left _ hcmark) hcstack.1,
      hfresh c hcmark hcstack.2⟩
  · obtain ⟨t, ht, rfl⟩ := List.mem_map.mp hp
    obtain ⟨htn, htT⟩ := List.mem_filter.mp ht
    have hkept : e.current ∈ (q.afterScan st e rest).visited :=
      mem_backtrack_of_touches (t := t) (h.unmarked.union_pushes _)
        (Finset.mem_union_left _ hmark) htn (of_decide_eq_true htT)
    exact ⟨e.current, by rw [List.dropLast_concat, hlast]; rfl, hkept,
      hfresh e.current hmark hnew⟩

/-- The entry is scanned, and no target is recorded twice. -/
theorem Once.scan (h : q.Once S s st) (hst : st.stack = e :: rest)
    (hclear : (q.hits (q.neighbors e.current)).Nodup) :
    q.Once S s (q.afterScan st e rest) where
  unmarked := h.unmarked.afterScan e rest
  entries := h.entries_scan hst
  currents := h.currents_scan hst
  met := h.met_scan hst
  heads := by
    obtain ⟨-, hhead, -⟩ := h.entries e (hst ▸ List.mem_cons_self)
    intro p hp
    rw [afterScan_paths] at hp
    rcases List.mem_append.mp hp with hp | hp
    · exact h.heads p hp
    · obtain ⟨t, -, rfl⟩ := List.mem_map.mp hp
      exact ⟨s, List.mem_append_right _ (List.mem_singleton_self s), head?_concat_of hhead⟩
  once := by
    rw [afterScan_paths]
    exact h.scan_nodup (hst ▸ List.mem_cons_self) hclear

end Scan

/-- A turn in which no target is recorded twice keeps the paths distinct. -/
theorem Once.turn {S : List α} {s : α} {st st' : Search α} (h : q.Once S s st)
    (hclear : q.TurnClear st) (hturn : q.turn st = .inr st') : q.Once S s st' := by
  obtain ⟨e, rest, hst, rfl | ⟨hdepth, hlt, rfl⟩⟩ := turn_inr_cases hturn h.unmarked
  · exact h.drop hst
  · have hc := hclear e (by rw [hst]; rfl) hdepth
    unfold scanned at hlt
    rw [List.length_append, List.length_map] at hlt
    rw [List.take_of_length_le (by omega)] at hc
    exact h.scan hst hc

/-- The turn with which the loop is left. -/
theorem Once.exit {S : List α} {s : α} {st : Search α} (h : q.Once S s st)
    (hclear : q.TurnClear st) {out : Except (List (List α)) (Search α)}
    (hturn : q.turn st = .inl out) : (exitPaths out).Nodup := by
  rcases turn_inl_cases hturn h.unmarked with heq | ⟨e, rest, hst, hdepth, hps, heq⟩
  · rw [heq]
    exact h.once
  · rw [heq, scanned_take hps]
    exact h.scan_nodup (hst ▸ List.mem_cons_self) (hclear e (by rw [hst]; rfl) hdepth)

/-! ## One source -/

theorem Passes.unmarked {st st' : Search α} (h : q.Passes st st') (hV : q.Unmarked st) :
    q.Unmarked st' := by
  induction h with
  | refl => exact hV
  | tail _ hturn ih => exact ih.turn hturn

theorem Passes.back {st st' : Search α} (h : q.Passes st st')
    {out : Except (List (List α)) (Search α)} (hout : Yields q.turn st' out) :
    Yields q.turn st out := by
  induction h using Relation.ReflTransGen.head_induction_on with
  | refl => exact hout
  | head hturn _ ih => exact yields_inr hturn ih

/-- A state on the way is left as the first one is. -/
theorem Passes.yields {st st' : Search α} (h : q.Passes st st')
    {out : Except (List (List α)) (Search α)} (hout : Yields q.turn st out) :
    Yields q.turn st' out := by
  have hend := yields_runTotal q.turn q.stackWeight q.stackWeight_turn st'
  rwa [yields_unique hout (h.back hend)]

/-- The paths are distinct if no turn records a target twice. -/
theorem Once.run {S : List α} {s : α} {st : Search α} (h : q.Once S s st)
    (hclear : ∀ st', q.Passes st st' → q.TurnClear st')
    {out : Except (List (List α)) (Search α)} (hout : Yields q.turn st out) :
    (exitPaths out).Nodup ∧ ∀ st', out = .ok st' → q.Once S s st' := by
  have hstep : ∀ a b, q.Once S s a ∧ q.Passes st a → q.turn a = .inr b →
      q.Once S s b ∧ q.Passes st b :=
    fun a b ha hturn => ⟨ha.1.turn (hclear a ha.2) hturn, ha.2.tail hturn⟩
  obtain ⟨last, ⟨honce, hpass⟩, hexit⟩ :=
    exit_of_yields hstep ⟨h, Relation.ReflTransGen.refl⟩ hout
  refine ⟨honce.exit (hclear last hpass) hexit, ?_⟩
  rintro st' rfl
  exact eq_of_turn_ok hexit honce.unmarked ▸ honce

theorem paths_prefix_of_yields {st : Search α} (hV : q.Unmarked st)
    {out : Except (List (List α)) (Search α)} (hout : Yields q.turn st out) :
    st.paths <+: exitPaths out := by
  have hstep : ∀ a b, q.Unmarked a ∧ st.paths <+: a.paths → q.turn a = .inr b →
      q.Unmarked b ∧ st.paths <+: b.paths :=
    fun a b ha hturn => ⟨ha.1.turn hturn, ha.2.trans (paths_prefix_turn ha.1 hturn)⟩
  obtain ⟨last, ⟨hlast, hfront⟩, hexit⟩ := exit_of_yields hstep ⟨hV, List.prefix_rfl⟩ hout
  rcases turn_inl_cases hexit hlast with heq | ⟨e, rest, -, -, hps, heq⟩
  · rwa [heq]
  · rw [heq, scanned_take hps]
    exact hfront.trans (List.prefix_append _ _)

/-- Where the paths are distinct at last, no turn has recorded a target twice. -/
theorem turnClear_of_nodup {st : Search α} (hV : q.Unmarked st)
    {out : Except (List (List α)) (Search α)} (hout : Yields q.turn st out)
    (hnodup : (exitPaths out).Nodup) : q.TurnClear st := by
  intro e he hdepth
  obtain ⟨rest, hst⟩ := List.head?_eq_some_iff.mp he
  by_cases hps : (st.paths.length : Int) < q.hardCap
  · have hturn := turn_scan hst hps hdepth hV
    have hpaths : (st.paths ++
        ((q.hits (q.neighbors e.current)).take (q.hardCap - st.paths.length).toNat).map
          (e.path ++ [·])) <+: exitPaths out := by
      rw [← scanned_take hps]
      split at hturn
      · next hlt =>
        have hpass : q.Passes st (q.afterScan st e rest) := Relation.ReflTransGen.single hturn
        have hfront := paths_prefix_of_yields (hV.turn hturn) (hpass.yields hout)
        rw [afterScan_paths] at hfront
        exact (List.take_prefix _ _).trans hfront
      · rw [yields_unique hout (yields_inl hturn)]
        exact List.prefix_rfl
    have hnew := (List.nodup_append.mp (hnodup.sublist hpaths.sublist)).2.1
    exact hnew.of_map _
  · have hnone : (q.hardCap - st.paths.length).toNat = 0 := by omega
    rw [hnone, List.take_zero]
    exact List.nodup_nil

/-! ## One source after the other -/

/-- What `for start in sources` does with a source that is searched. -/
theorem fromSource_run {s : α} (hs : ¬ q.IsTarget s) (acc : List (List α) × Finset α) :
    q.fromSource acc s = (q.whileStack (begun acc s)).map
      fun st => (st.paths, st.visited.erase s) :=
  if_neg hs

theorem fromSource_trivial {s : α} (hs : q.IsTarget s) (acc : List (List α) × Finset α) :
    q.fromSource acc s =
      if q.hardCap ≤ ((acc.1 ++ [[s]]).length : Int) then .error (acc.1 ++ [[s]])
      else .ok (acc.1 ++ [[s]], acc.2) :=
  if_pos hs

/-- What one source leaves: marks on no target, and all the paths there were. -/
theorem fromSource_keeps {acc : List (List α) × Finset α} (hV : ∀ x ∈ acc.2, ¬ q.IsTarget x)
    (s : α) :
    match q.fromSource acc s with
    | .error paths => acc.1 <+: paths
    | .ok acc' => acc.1 <+: acc'.1 ∧ ∀ x ∈ acc'.2, ¬ q.IsTarget x := by
  by_cases hs : q.IsTarget s
  · rw [fromSource_trivial hs]
    split
    · next paths heq =>
      split at heq
      · cases heq
        exact List.prefix_append _ _
      · cases heq
    · next acc' heq =>
      split at heq
      · cases heq
      · cases heq
        exact ⟨List.prefix_append _ _, hV⟩
  · have hbegun : q.Unmarked (begun acc s) := by
      intro x hx
      rcases Finset.mem_insert.mp hx with rfl | hx
      · exact hs
      · exact hV x hx
    have hyields := yields_runTotal q.turn q.stackWeight q.stackWeight_turn (begun acc s)
    have hfront := paths_prefix_of_yields hbegun hyields
    rw [fromSource_run hs]
    unfold whileStack
    cases hout : runTotal q.turn q.stackWeight q.stackWeight_turn (begun acc s) with
    | error paths =>
      rw [hout] at hfront
      exact hfront
    | ok st =>
      rw [hout] at hfront hyields
      have hstep : ∀ a b, q.Unmarked a → q.turn a = .inr b → q.Unmarked b :=
        fun a b ha hturn => ha.turn hturn
      obtain ⟨last, hlast, hexit⟩ := exit_of_yields hstep hbegun hyields
      obtain rfl := eq_of_turn_ok hexit hlast
      exact ⟨hfront, fun x hx => hlast x (Finset.mem_of_mem_erase hx)⟩

/-- The paths found so far stay in front. -/
theorem paths_prefix_returned {acc : List (List α) × Finset α} (hV : ∀ x ∈ acc.2, ¬ q.IsTarget x)
    (S : List α) : acc.1 <+: returned (S.foldlM q.fromSource acc) := by
  induction S generalizing acc with
  | nil => exact List.prefix_rfl
  | cons s S ih =>
    have hkeeps := fromSource_keeps hV s
    rw [List.foldlM_cons]
    cases hs : q.fromSource acc s with
    | error paths =>
      rw [hs] at hkeeps
      exact hkeeps
    | ok acc' =>
      rw [hs] at hkeeps
      exact hkeeps.1.trans (ih hkeeps.2)

theorem foldlM_unmarked {S : List α} {acc acc' : List (List α) × Finset α}
    (hV : ∀ x ∈ acc.2, ¬ q.IsTarget x) (h : S.foldlM q.fromSource acc = .ok acc') :
    ∀ x ∈ acc'.2, ¬ q.IsTarget x := by
  induction S generalizing acc with
  | nil =>
    obtain rfl := Except.ok.inj h
    exact hV
  | cons s S ih =>
    have hkeeps := fromSource_keeps hV s
    rw [List.foldlM_cons] at h
    cases hs : q.fromSource acc s with
    | error paths =>
      rw [hs] at h
      cases h
    | ok mid =>
      rw [hs] at h hkeeps
      exact ih hkeeps.2 h

/-- Distinct paths that start in the sources of `S`, and no marks on targets. -/
structure Kept (q : Query α) (S : List α) (acc : List (List α) × Finset α) : Prop where
  unmarked : ∀ x ∈ acc.2, ¬ q.IsTarget x
  heads : ∀ p ∈ acc.1, ∃ x ∈ S, p.head? = some x
  once : acc.1.Nodup

/-- One more source. -/
theorem Kept.fromSource {S : List α} {acc : List (List α) × Finset α} (h : q.Kept S acc) {s : α}
    (hs : s ∉ S)
    (hclear : ¬ q.IsTarget s → ∀ st, q.Passes (begun acc s) st → q.TurnClear st) :
    match q.fromSource acc s with
    | .error paths => paths.Nodup
    | .ok acc' => q.Kept (S ++ [s]) acc' := by
  by_cases hT : q.IsTarget s
  · have honce : (acc.1 ++ [[s]]).Nodup := by
      refine List.nodup_append.mpr ⟨h.once, List.nodup_singleton _, ?_⟩
      rintro p hp p' hp' rfl
      rw [List.mem_singleton.mp hp'] at hp
      obtain ⟨x, hx, heq⟩ := h.heads _ hp
      exact hs (Option.some.inj heq ▸ hx)
    have hheads : ∀ p ∈ acc.1 ++ [[s]], ∃ x ∈ S ++ [s], p.head? = some x := by
      intro p hp
      rcases List.mem_append.mp hp with hp | hp
      · obtain ⟨x, hx, heq⟩ := h.heads p hp
        exact ⟨x, List.mem_append_left _ hx, heq⟩
      · rw [List.mem_singleton.mp hp]
        exact ⟨s, List.mem_append_right _ (List.mem_singleton_self s), rfl⟩
    rw [fromSource_trivial hT]
    by_cases hcap : q.hardCap ≤ ((acc.1 ++ [[s]]).length : Int)
    · rw [if_pos hcap]
      exact honce
    · rw [if_neg hcap]
      exact ⟨h.unmarked, hheads, honce⟩
  · have hbegun := Once.begun hs hT h.unmarked h.heads h.once
    have hrun := hbegun.run (hclear hT)
      (yields_runTotal q.turn q.stackWeight q.stackWeight_turn (begun acc s))
    rw [fromSource_run hT]
    unfold whileStack
    cases hout : runTotal q.turn q.stackWeight q.stackWeight_turn (begun acc s) with
    | error paths =>
      rw [hout] at hrun
      exact hrun.1
    | ok st =>
      have honce := hrun.2 st hout
      exact ⟨fun x hx => honce.unmarked x (Finset.mem_of_mem_erase hx), honce.heads, honce.once⟩

/-- All sources, one after the other. -/
theorem Kept.returned {S post : List α} {acc : List (List α) × Finset α} (h : q.Kept S acc)
    (hnodup : (S ++ post).Nodup)
    (hclear : ∀ pre s rest acc', post = pre ++ s :: rest →
      pre.foldlM q.fromSource acc = .ok acc' → ¬ q.IsTarget s →
        ∀ st, q.Passes (begun acc' s) st → q.TurnClear st) :
    (returned (post.foldlM q.fromSource acc)).Nodup := by
  induction post generalizing S acc with
  | nil => exact h.once
  | cons s post ih =>
    have hs : s ∉ S := by
      intro hs
      exact (List.nodup_append.mp hnodup).2.2 s hs s List.mem_cons_self rfl
    have hnext := h.fromSource hs fun hT => hclear [] s post acc rfl rfl hT
    rw [List.foldlM_cons]
    cases hacc : q.fromSource acc s with
    | error paths =>
      rw [hacc] at hnext
      exact hnext
    | ok acc' =>
      rw [hacc] at hnext
      refine ih hnext (by rwa [List.append_assoc]) ?_
      intro pre s' rest acc'' hpost hfold
      refine hclear (s :: pre) s' rest acc'' (by rw [hpost]; rfl) ?_
      rw [List.foldlM_cons, hacc]
      exact hfold

end Query

/-- The returned paths are pairwise distinct if and only if no turn of the search records a target
    twice. -/
theorem enumerateSimplePaths_nodup_iff (q : Query α) (sources : FrozenSet α) :
    (enumerateSimplePaths q.neighbors sources q.targets q.depthCap q.hardCap).Nodup ↔
      ∀ st, q.Visits sources st → q.TurnClear st := by
  have hreturned : enumerateSimplePaths q.neighbors sources q.targets q.depthCap q.hardCap =
      Query.returned (sources.elems.foldlM q.fromSource ([], ∅)) := by
    unfold enumerateSimplePaths Query.returned
    rfl
  have hstart : q.Kept [] ([], ∅) := ⟨by simp, by simp, List.nodup_nil⟩
  rw [hreturned]
  constructor
  · rintro hnodup st ⟨pre, s, post, acc, hS, hfold, hT, hpass⟩
    have hV := Query.foldlM_unmarked (q := q) (by simp) hfold
    have hbegun : q.Unmarked (Query.begun acc s) := by
      intro x hx
      rcases Finset.mem_insert.mp hx with rfl | hx
      · exact hT
      · exact hV x hx
    have hyields := yields_runTotal q.turn q.stackWeight q.stackWeight_turn (Query.begun acc s)
    refine Query.turnClear_of_nodup (hpass.unmarked hbegun) (hpass.yields hyields) ?_
    have hkeeps := Query.fromSource_keeps hV s
    rw [hS, List.foldlM_append, hfold] at hnodup
    have hrest : (Query.returned ((s :: post).foldlM q.fromSource acc)).Nodup := hnodup
    rw [List.foldlM_cons, Query.fromSource_run hT] at hrest
    rw [Query.fromSource_run hT] at hkeeps
    unfold Query.whileStack at hrest hkeeps
    cases hout : runTotal q.turn q.stackWeight q.stackWeight_turn (Query.begun acc s) with
    | error paths =>
      rw [hout] at hrest
      exact hrest
    | ok st' =>
      rw [hout] at hrest hkeeps
      exact hrest.sublist (Query.paths_prefix_returned hkeeps.2 post).sublist
  · intro hclear
    refine hstart.returned (by simpa using sources.nodup) ?_
    intro pre s post acc hS hfold hT st hpass
    exact hclear st ⟨pre, s, post, acc, hS, hfold, hT, hpass⟩

/-! ## The graph of a map -/

/-- The search over the graph that `_build_enumeration_graph` builds from a map and its
    observations. -/
def mapQuery (rows : List (Cell × String)) (observationSets : List (FrozenSet Cell))
    (targets : FrozenSet Cell) (depthCap : Int) : Query Cell where
  neighbors := (buildEnumerationGraph (buildCellGraph rows).neighbors.of observationSets).1
  targets := targets
  depthCap := depthCap
  hardCap := p95PathCountCap

theorem seed_nodup (rows : List (Cell × String)) (c : Cell) :
    ((buildCellGraph rows).neighbors.of c).Nodup := by
  have hrows : gridBlocks (rows.map fun r => ⟨0, r.1, r.2⟩) = rows := by
    unfold gridBlocks
    rw [List.map_map]
    exact List.map_id rows
  have h := neighbors_nodup (rows.map fun r => ⟨0, r.1, r.2⟩) c
  rwa [hrows] at h

/-- A target is listed twice when it is a seed neighbour and was observed together with the cell. -/
theorem hits_nodup_iff (rows : List (Cell × String)) (observationSets : List (FrozenSet Cell))
    (targets : FrozenSet Cell) (depthCap : Int) (c : Cell) :
    ((mapQuery rows observationSets targets depthCap).hits
        ((mapQuery rows observationSets targets depthCap).neighbors c)).Nodup ↔
      ∀ t ∈ targets, ¬ (t ∈ (buildCellGraph rows).neighbors.of c ∧
        ObservedTogether observationSets c t) := by
  obtain ⟨partners, hlist, hnodup, hmem⟩ :=
    combined_eq (buildCellGraph rows).neighbors.of observationSets c
  have hneighbors : (mapQuery rows observationSets targets depthCap).neighbors c =
      (buildCellGraph rows).neighbors.of c ++ partners := hlist
  unfold Query.hits
  rw [hneighbors, List.filter_append, List.nodup_append]
  constructor
  · rintro ⟨-, -, hne⟩ t ht ⟨hseed, hobserved⟩
    have hT : decide ((mapQuery rows observationSets targets depthCap).IsTarget t) = true :=
      decide_eq_true ht
    exact hne t (List.mem_filter.mpr ⟨hseed, hT⟩) t
      (List.mem_filter.mpr ⟨(hmem t).mpr hobserved, hT⟩) rfl
  · intro hall
    refine ⟨(seed_nodup rows c).filter _, hnodup.filter _, ?_⟩
    rintro t ht t' ht' rfl
    obtain ⟨hseed, hT⟩ := List.mem_filter.mp ht
    exact hall t (of_decide_eq_true hT)
      ⟨hseed, (hmem t).mp (List.mem_of_mem_filter ht')⟩

/-- The paths of an interval are pairwise distinct if and only if no turn of the search records a
    target twice; a whole scan records one twice if and only if it is a seed neighbour of the cell
    and was observed together with it. -/
theorem paths_once_iff (rows : List (Cell × String)) (observationSets : List (FrozenSet Cell))
    (sources targets : FrozenSet Cell) (depthCap : Int) :
    ((enumerateSimplePaths
        (buildEnumerationGraph (buildCellGraph rows).neighbors.of observationSets).1 sources targets
        depthCap p95PathCountCap).Nodup ↔
      ∀ st, (mapQuery rows observationSets targets depthCap).Visits sources st →
        (mapQuery rows observationSets targets depthCap).TurnClear st) ∧
    ∀ c, ((mapQuery rows observationSets targets depthCap).hits
        ((mapQuery rows observationSets targets depthCap).neighbors c)).Nodup ↔
      ∀ t ∈ targets, ¬ (t ∈ (buildCellGraph rows).neighbors.of c ∧
        ObservedTogether observationSets c t) :=
  ⟨enumerateSimplePaths_nodup_iff (mapQuery rows observationSets targets depthCap) sources,
    hits_nodup_iff rows observationSets targets depthCap⟩

/-- Two road blocks side by side, both in one observation. -/
def besideRows : List (Cell × String) := [(⟨0, 0, 0⟩, "Road"), (⟨1, 0, 0⟩, "Road")]

def besideSet : FrozenSet Cell := ⟨[⟨0, 0, 0⟩, ⟨1, 0, 0⟩], by decide⟩

/-- The one path from the first block to the second is returned twice. -/
theorem beside_path_twice :
    enumerateSimplePaths
      (buildEnumerationGraph (buildCellGraph besideRows).neighbors.of [besideSet]).1
      ⟨[⟨0, 0, 0⟩], List.nodup_singleton _⟩ ⟨[⟨1, 0, 0⟩], List.nodup_singleton _⟩ defaultDepthCap
      p95PathCountCap =
        [[⟨0, 0, 0⟩, ⟨1, 0, 0⟩], [⟨0, 0, 0⟩, ⟨1, 0, 0⟩]] := by
  decide +kernel

end TraxMania.Corridor
