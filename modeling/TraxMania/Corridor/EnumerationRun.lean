import TraxMania.Corridor.Enumeration
import TraxMania.Corridor.Explore
import Mathlib.Data.Finset.Lattice.Lemmas

/-
  `enumerateSimplePaths` refines the recursive search: popping an entry runs `explore` below it
  (`reaches_explore`), one source after the other is `sweep`, and the hard cap cuts the list of
  found paths off (`enumerateSimplePaths_eq`).
-/

namespace TraxMania.Corridor

open TraxMania.Grid Lib.Loop

variable {α : Type*} [DecidableEq α]

/-- The paths an expanded approach records: one for each target among its neighbours. -/
def recorded (N : α → List α) (T : α → Prop) [DecidablePred T] (q : Approach α) :
    List (List α) :=
  ((N q.1).filter (fun t => decide (T t))).map fun t => (q.1 :: q.2).reverse ++ [t]

/-- The searches below the sources, in the order of the sources. A source that is a target is
    not searched. -/
def sweep (N : α → List α) (T : α → Prop) [DecidablePred T] (r : Nat) :
    Finset α → List α → List (α × List (Approach α))
  | _, [] => []
  | V, s :: S =>
    if T s then (s, []) :: sweep N T r V S
    else (s, (explore N T r (insert s V) s []).2) ::
      sweep N T r ((explore N T r (insert s V) s []).1.erase s) S

/-- The paths recorded from one source. -/
def recordedFrom (N : α → List α) (T : α → Prop) [DecidablePred T]
    (run : α × List (Approach α)) : List (List α) :=
  if T run.1 then [[run.1]] else run.2.flatMap (recorded N T)

/-- All paths the search records when nothing cuts it off. -/
def recordedPaths (N : α → List α) (T : α → Prop) [DecidablePred T] (r : Nat) (V : Finset α)
    (S : List α) : List (List α) :=
  (sweep N T r V S).flatMap (recordedFrom N T)

namespace Query

variable (q : Query α)

/-- Membership in the targets. -/
def IsTarget (t : α) : Prop := t ∈ q.targets

instance : DecidablePred q.IsTarget := fun t => inferInstanceAs (Decidable (t ∈ q.targets))

/-- From `st` the search gets to the paths `ps` with the marks `V` and `rest` on its stack, or
    stops when the hard cap is reached on the way. -/
def Reaches (st : Search α) (ps : List (List α)) (V : Finset α) (rest : List (Entry α)) : Prop :=
  ((ps.length : Int) < q.hardCap →
      ∀ out, Yields q.turn ⟨ps, V, rest⟩ out → Yields q.turn st out) ∧
    (q.hardCap ≤ ps.length → Yields q.turn st (.error (ps.take q.hardCap.toNat)))

variable {q}

theorem Reaches.refl (ps : List (List α)) (V : Finset α) (rest : List (Entry α))
    (h : (ps.length : Int) < q.hardCap) : q.Reaches ⟨ps, V, rest⟩ ps V rest :=
  ⟨fun _ _ hout => hout, fun h' => by omega⟩

omit [DecidableEq α] in
theorem take_of_cap {ps more : List (List α)} (h : q.hardCap ≤ ps.length) :
    (ps ++ more).take q.hardCap.toNat = ps.take q.hardCap.toNat :=
  List.take_append_of_le_length (by omega)

theorem Reaches.trans {st : Search α} {ps more : List (List α)} {V V' : Finset α}
    {rest rest' : List (Entry α)} (h : q.Reaches st ps V rest)
    (h' : (ps.length : Int) < q.hardCap → q.Reaches ⟨ps, V, rest⟩ (ps ++ more) V' rest') :
    q.Reaches st (ps ++ more) V' rest' := by
  by_cases hps : (ps.length : Int) < q.hardCap
  · exact ⟨fun hlt out hout => h.1 hps out ((h' hps).1 hlt out hout),
      fun hge => h.1 hps _ ((h' hps).2 hge)⟩
  · refine ⟨fun hlt => ?_, fun _ => ?_⟩
    · rw [List.length_append] at hlt
      omega
    · rw [take_of_cap (by omega)]
      exact h.2 (by omega)

/-! ## One entry -/

/-- The entry pushed for a neighbour. -/
def pushed (path : List α) (depth : Nat) (nb : α) : Entry α := ⟨nb, path ++ [nb], depth + 1⟩

variable (q) in
/-- The targets among the neighbours, in the order of the scan. -/
def hits (nbs : List α) : List α := nbs.filter fun t => decide (q.IsTarget t)

variable (q) in
theorem scan_eq (path : List α) (depth : Nat) (nbs : List α) (st : Search α)
    (hcap : (st.paths.length : Int) < q.hardCap) (hV : ∀ x ∈ st.visited, ¬ q.IsTarget x) :
    q.scan path depth nbs st =
      if ((st.paths ++ (q.hits nbs).map (path ++ [·])).length : Int) < q.hardCap then
        .ok ⟨st.paths ++ (q.hits nbs).map (path ++ [·]),
          st.visited ∪ (pushes q.IsTarget st.visited nbs).toFinset,
          ((pushes q.IsTarget st.visited nbs).map (pushed path depth)).reverse ++ st.stack⟩
      else .error ((st.paths ++ (q.hits nbs).map (path ++ [·])).take q.hardCap.toNat) := by
  induction nbs generalizing st with
  | nil =>
    simp only [scan, hits, List.filter_nil, List.map_nil, List.append_nil, pushes]
    rw [if_pos hcap]
    simp
  | cons nb nbs ih =>
    unfold scan
    split
    · next hnb =>
      have hT : ¬ q.IsTarget nb := hV nb hnb
      have hhits : q.hits (nb :: nbs) = q.hits nbs := by simp [hits, hT]
      have hpush : pushes q.IsTarget st.visited (nb :: nbs) =
          pushes q.IsTarget st.visited nbs := by simp [pushes, hnb]
      rw [ih st hcap hV, hhits, hpush]
    · next hnb =>
      split
      · next hT =>
        have hT' : q.IsTarget nb := hT
        have hhits : st.paths ++ (q.hits (nb :: nbs)).map (path ++ [·]) =
            (st.paths ++ [path ++ [nb]]) ++ (q.hits nbs).map (path ++ [·]) := by
          simp [hits, hT']
        have hpush : pushes q.IsTarget st.visited (nb :: nbs) =
            pushes q.IsTarget st.visited nbs := by simp [pushes, hT']
        rw [hhits, hpush]
        dsimp only
        split
        · next hge =>
          have hlen : (st.paths ++ [path ++ [nb]]).length = q.hardCap.toNat := by
            rw [List.length_append, List.length_singleton] at hge ⊢
            omega
          rw [if_neg, ← hlen, List.take_left]
          rw [List.length_append]
          omega
        · next hlt =>
          exact ih { st with paths := st.paths ++ [path ++ [nb]] } (by simpa using hlt) hV
      · next hT =>
        have hT' : ¬ q.IsTarget nb := hT
        have hhits : q.hits (nb :: nbs) = q.hits nbs := by simp [hits, hT']
        have hpush : pushes q.IsTarget st.visited (nb :: nbs) =
            nb :: pushes q.IsTarget (insert nb st.visited) nbs := by simp [pushes, hT', hnb]
        have hV' : ∀ x ∈ insert nb st.visited, ¬ q.IsTarget x := by
          intro x hx
          rcases Finset.mem_insert.mp hx with rfl | hx
          · exact hT'
          · exact hV x hx
        rw [ih ⟨st.paths, insert nb st.visited, ⟨nb, path ++ [nb], depth + 1⟩ :: st.stack⟩ hcap hV',
          hhits, hpush]
        simp [pushed, Finset.insert_union]

/-- The entry of an approach. -/
def entryOf (a : Approach α) : Entry α := ⟨a.1, (a.1 :: a.2).reverse, a.2.length⟩

omit [DecidableEq α] in
theorem pushed_eq (c : α) (anc : List α) (k : α) :
    pushed (c :: anc).reverse anc.length k = entryOf (k, c :: anc) := by
  simp [pushed, entryOf]

/-- After the scan of `c` every neighbour that is no target is marked. -/
theorem backtrack_eq (c : α) (ps : List (List α)) (V : Finset α) (rest : List (Entry α))
    (hV : ∀ x ∈ V, ¬ q.IsTarget x) :
    q.backtrack c ⟨ps, V ∪ (order q.neighbors q.IsTarget V c).toFinset, rest⟩ =
      ⟨ps, marked q.neighbors q.IsTarget V c, rest⟩ := by
  have hmem : ∀ x, x ∈ V ∪ (order q.neighbors q.IsTarget V c).toFinset → ¬ q.IsTarget x := by
    intro x hx
    rcases Finset.mem_union.mp hx with hx | hx
    · exact hV x hx
    · exact (mem_order.mp (List.mem_toFinset.mp hx)).2.2
  have hiff : (q.neighbors c).any (fun nb => decide
      (nb ∉ V ∪ (order q.neighbors q.IsTarget V c).toFinset)) = true ↔
      Touches q.neighbors q.IsTarget c := by
    rw [List.any_eq_true]
    constructor
    · rintro ⟨nb, hnb, h⟩
      rw [decide_eq_true_eq, Finset.mem_union, List.mem_toFinset, mem_order] at h
      exact ⟨nb, hnb, by tauto⟩
    · rintro ⟨t, ht, hT⟩
      exact ⟨t, ht, decide_eq_true fun h => hmem t h hT⟩
  unfold backtrack marked
  dsimp only
  by_cases ht : Touches q.neighbors q.IsTarget c
  · rw [if_pos (hiff.mpr ht), if_pos ht]
  · rw [if_neg (fun h => ht (hiff.mp h)), if_neg ht]

/-! ## One turn -/

/-- No target is marked. -/
def Unmarked (q : Query α) (st : Search α) : Prop := ∀ x ∈ st.visited, ¬ q.IsTarget x

/-- The paths when `e` has been scanned to its end. -/
def scanned (q : Query α) (st : Search α) (e : Entry α) : List (List α) :=
  st.paths ++ (q.hits (q.neighbors e.current)).map (e.path ++ [·])

/-- The state when `e` has been scanned to its end. -/
def afterScan (q : Query α) (st : Search α) (e : Entry α) (rest : List (Entry α)) : Search α :=
  q.backtrack e.current ⟨q.scanned st e,
    st.visited ∪ (pushes q.IsTarget st.visited (q.neighbors e.current)).toFinset,
    ((pushes q.IsTarget st.visited (q.neighbors e.current)).map (pushed e.path e.depth)).reverse ++
      rest⟩

/-- A turn below the depth cap. -/
theorem turn_scan {st : Search α} {e : Entry α} {rest : List (Entry α)}
    (hst : st.stack = e :: rest) (hps : (st.paths.length : Int) < q.hardCap)
    (hdepth : (e.depth : Int) < q.depthCap) (hV : q.Unmarked st) :
    q.turn st =
      if ((q.scanned st e).length : Int) < q.hardCap then .inr (q.afterScan st e rest)
      else .inl (.error ((q.scanned st e).take q.hardCap.toNat)) := by
  have hscan := q.scan_eq e.path e.depth (q.neighbors e.current) { st with stack := rest } hps hV
  unfold turn expand
  rw [hst]
  dsimp only
  rw [if_neg (by omega), if_neg (by omega), hscan]
  unfold scanned
  by_cases hlt : ((st.paths ++ (q.hits (q.neighbors e.current)).map (e.path ++ [·])).length : Int) <
      q.hardCap
  · simp only [if_pos hlt, Except.map, afterScan, scanned]
  · simp only [if_neg hlt, Except.map]

/-- A turn at the depth cap. -/
theorem turn_deep {st : Search α} {e : Entry α} {rest : List (Entry α)}
    (hst : st.stack = e :: rest) (hps : (st.paths.length : Int) < q.hardCap)
    (hdepth : ¬ (e.depth : Int) < q.depthCap) :
    q.turn st = .inr { st with visited := st.visited.erase e.current, stack := rest } := by
  unfold turn expand
  rw [hst]
  dsimp only
  rw [if_neg (by omega), if_pos (by omega)]

/-- The turn for an entry with steps left. -/
theorem turn_expand (c : α) (anc : List α) (ps : List (List α)) (V : Finset α)
    (rest : List (Entry α)) (hps : (ps.length : Int) < q.hardCap)
    (hleft : ¬ q.depthCap ≤ (anc.length : Int)) (hV : ∀ x ∈ V, ¬ q.IsTarget x) :
    q.turn ⟨ps, V, entryOf (c, anc) :: rest⟩ =
      if ((ps ++ recorded q.neighbors q.IsTarget (c, anc)).length : Int) < q.hardCap then
        .inr ⟨ps ++ recorded q.neighbors q.IsTarget (c, anc), marked q.neighbors q.IsTarget V c,
          (order q.neighbors q.IsTarget V c).map (fun k => entryOf (k, c :: anc)) ++ rest⟩
      else
        .inl (.error ((ps ++ recorded q.neighbors q.IsTarget (c, anc)).take q.hardCap.toNat)) := by
  have hdepth : ((entryOf (c, anc)).depth : Int) < q.depthCap := Int.not_le.mp hleft
  have hclear : q.Unmarked ⟨ps, V, entryOf (c, anc) :: rest⟩ := hV
  have hstack : ((pushes q.IsTarget V (q.neighbors c)).map
      (pushed (c :: anc).reverse anc.length)).reverse =
      (order q.neighbors q.IsTarget V c).map (fun k => entryOf (k, c :: anc)) := by
    rw [order, List.map_reverse]
    congr 1
    exact List.map_congr_left fun k _ => pushed_eq c anc k
  have hset : (pushes q.IsTarget V (q.neighbors c)).toFinset =
      (order q.neighbors q.IsTarget V c).toFinset := by
    rw [order, List.toFinset_reverse]
  have hafter : q.afterScan ⟨ps, V, entryOf (c, anc) :: rest⟩ (entryOf (c, anc)) rest =
      ⟨ps ++ recorded q.neighbors q.IsTarget (c, anc), marked q.neighbors q.IsTarget V c,
        (order q.neighbors q.IsTarget V c).map (fun k => entryOf (k, c :: anc)) ++ rest⟩ := by
    unfold afterScan
    dsimp only [entryOf]
    rw [hstack, hset]
    exact backtrack_eq c _ V _ hV
  rw [turn_scan rfl hps hdepth hclear, hafter]
  rfl

/-- The turn for an entry at the depth cap. -/
theorem turn_capped (c : α) (anc : List α) (ps : List (List α)) (V : Finset α)
    (rest : List (Entry α)) (hps : (ps.length : Int) < q.hardCap)
    (hleft : q.depthCap ≤ (anc.length : Int)) :
    q.turn ⟨ps, V, entryOf (c, anc) :: rest⟩ = .inr ⟨ps, V.erase c, rest⟩ := by
  have hdepth : ¬ ((entryOf (c, anc)).depth : Int) < q.depthCap := Int.not_lt.mpr hleft
  exact turn_deep rfl hps hdepth

theorem reaches_of_turn {st st' : Search α} {ps : List (List α)} {V : Finset α}
    {rest : List (Entry α)} (h : q.turn st = .inr st') (h' : q.Reaches st' ps V rest) :
    q.Reaches st ps V rest :=
  ⟨fun hlt out hout => yields_inr h (h'.1 hlt out hout), fun hge => yields_inr h (h'.2 hge)⟩

/-! ## Everything below one entry -/

/-- The search never marks a target. -/
theorem explore_unmarked {N : α → List α} {T : α → Prop} [DecidablePred T] {r : Nat}
    {V : Finset α} {c : α} {anc : List α} (hc : c ∈ V) (hV : ∀ x ∈ V, ¬ T x)
    (hanc : ∀ x ∈ c :: anc, ¬ T x) : ∀ x ∈ (explore N T r V c anc).1, ¬ T x := by
  intro x hx
  by_cases hxV : x ∈ V
  · exact hV x hxV
  · obtain ⟨-, p, hp, he⟩ := (explore_marks r V c anc hc).fresh x hx hxV
    subst he
    rcases (explore_path r V c anc p hp).wall p.1 (by simp) with h | h
    · exact hanc _ h
    · exact h

theorem reaches_kids {r : Nat} {c : α} {anc : List α}
    (ih : ∀ (k : α) (ps : List (List α)) (W : Finset α) (rest : List (Entry α)), k ∈ W →
      (ps.length : Int) < q.hardCap → (∀ x ∈ W, ¬ q.IsTarget x) →
      q.Reaches ⟨ps, W, entryOf (k, c :: anc) :: rest⟩
        (ps ++ (explore q.neighbors q.IsTarget r W k (c :: anc)).2.flatMap
          (recorded q.neighbors q.IsTarget))
        (explore q.neighbors q.IsTarget r W k (c :: anc)).1 rest)
    (hanc : ∀ x ∈ c :: anc, ¬ q.IsTarget x) {ks : List α} {W : Finset α}
    (hks : ∀ k ∈ ks, k ∈ W) (hnd : ks.Nodup) (hW : ∀ x ∈ W, ¬ q.IsTarget x)
    (ps : List (List α)) (rest : List (Entry α)) (hps : (ps.length : Int) < q.hardCap) :
    q.Reaches ⟨ps, W, ks.map (fun k => entryOf (k, c :: anc)) ++ rest⟩
      (ps ++ (exploreKids q.neighbors q.IsTarget r c anc W ks).2.flatMap
        (recorded q.neighbors q.IsTarget))
      (exploreKids q.neighbors q.IsTarget r c anc W ks).1 rest := by
  induction ks generalizing W ps with
  | nil =>
    rw [exploreKids_nil]
    simpa using Reaches.refl ps W rest hps
  | cons k ks ihk =>
    have hk := hks k (by simp)
    have hkanc : ∀ x ∈ k :: c :: anc, ¬ q.IsTarget x := by
      intro x hx
      rcases List.mem_cons.mp hx with rfl | hx
      · exact hW x hk
      · exact hanc x hx
    rw [exploreKids_cons, List.flatMap_append, ← List.append_assoc]
    refine (ih k ps W _ hk hps hW).trans fun hps' => ?_
    exact ihk (kids_stay_marked _ _ _ hks hnd) (List.nodup_cons.mp hnd).2
      (explore_unmarked hk hW hkanc) _ hps'

/-- Popping the entry of `(c, anc)` runs `explore` and gives the rest of the stack back. -/
theorem reaches_explore (r : Nat) (c : α) (anc : List α) (ps : List (List α)) (V : Finset α)
    (rest : List (Entry α)) (hr : q.left anc.length = r) (hc : c ∈ V)
    (hps : (ps.length : Int) < q.hardCap) (hV : ∀ x ∈ V, ¬ q.IsTarget x)
    (hanc : ∀ x ∈ c :: anc, ¬ q.IsTarget x) :
    q.Reaches ⟨ps, V, entryOf (c, anc) :: rest⟩
      (ps ++ (explore q.neighbors q.IsTarget r V c anc).2.flatMap
        (recorded q.neighbors q.IsTarget))
      (explore q.neighbors q.IsTarget r V c anc).1 rest := by
  induction r generalizing c anc ps V rest with
  | zero =>
    have hcap : q.depthCap ≤ (anc.length : Int) := by
      unfold left at hr
      omega
    refine reaches_of_turn (turn_capped c anc ps V rest hps hcap) ?_
    simpa [explore] using Reaches.refl ps (V.erase c) rest hps
  | succ r ih =>
    have hcap : ¬ q.depthCap ≤ (anc.length : Int) := by
      unfold left at hr
      omega
    have hr' : q.left (c :: anc).length = r := by
      rw [q.left_succ hcap] at hr
      exact Nat.succ.inj hr
    have hm : ∀ x ∈ marked q.neighbors q.IsTarget V c, ¬ q.IsTarget x := by
      intro x hx
      rcases (mem_marked hc).mp hx with h | h
      · exact hV x h.1
      · exact (mem_order.mp h).2.2
    have hturn := turn_expand c anc ps V rest hps hcap hV
    rw [explore_succ, List.flatMap_cons, ← List.append_assoc]
    by_cases hlt : ((ps ++ recorded q.neighbors q.IsTarget (c, anc)).length : Int) < q.hardCap
    · rw [if_pos hlt] at hturn
      refine reaches_of_turn hturn (reaches_kids (fun k ps W rest hk hps' hW => ?_) hanc
        (order_mem_marked hc) (nodup_order V c) hm _ rest hlt)
      refine ih k (c :: anc) ps W rest hr' hk hps' hW fun x hx => ?_
      rcases List.mem_cons.mp hx with rfl | hx
      · exact hW x hk
      · exact hanc x hx
    · rw [if_neg hlt] at hturn
      refine ⟨fun h => ?_, fun _ => ?_⟩
      · rw [List.length_append] at h
        omega
      · rw [take_of_cap (by omega)]
        exact yields_inl hturn

/-! ## One source after the other -/

/-- The state of `while stack` when it has run out of entries. -/
theorem yields_done (ps : List (List α)) (V : Finset α) :
    Yields q.turn ⟨ps, V, []⟩ (.ok ⟨ps, V, []⟩) := yields_inl rfl

theorem fromSource_target {s : α} (hs : q.IsTarget s) (ps : List (List α)) (V : Finset α) :
    q.fromSource (ps, V) s =
      if ((ps ++ [[s]]).length : Int) < q.hardCap then .ok (ps ++ [[s]], V)
      else .error (ps ++ [[s]]) := by
  unfold fromSource
  rw [if_pos (show s ∈ q.targets from hs)]
  dsimp only
  by_cases h : q.hardCap ≤ ((ps ++ [[s]]).length : Int)
  · rw [if_pos h, if_neg (by omega)]
  · rw [if_neg h, if_pos (by omega)]

theorem fromSource_search {s : α} (hs : ¬ q.IsTarget s) (ps : List (List α)) (V : Finset α)
    (hps : (ps.length : Int) < q.hardCap) (hV : ∀ x ∈ V, ¬ q.IsTarget x) :
    q.fromSource (ps, V) s =
      let res := explore q.neighbors q.IsTarget q.depthCap.toNat (insert s V) s []
      let ps' := ps ++ res.2.flatMap (recorded q.neighbors q.IsTarget)
      if (ps'.length : Int) < q.hardCap then .ok (ps', res.1.erase s)
      else .error (ps'.take q.hardCap.toNat) := by
  have hV' : ∀ x ∈ insert s V, ¬ q.IsTarget x := by
    intro x hx
    rcases Finset.mem_insert.mp hx with rfl | hx
    · exact hs
    · exact hV x hx
  have hreach := reaches_explore q.depthCap.toNat s [] ps (insert s V) [] (by simp [left])
    (Finset.mem_insert_self s V) hps hV' (by simpa using hs)
  unfold fromSource
  rw [if_neg (show ¬ s ∈ q.targets from hs)]
  dsimp only
  split
  · next hlt =>
    have h := runTotal_eq_of_yields q.stackWeight_turn
      (hreach.1 hlt _ (yields_done _ _))
    simp only [entryOf, List.reverse_cons, List.reverse_nil, List.nil_append, List.length_nil] at h
    rw [whileStack, h]
    rfl
  · next hge =>
    have h := runTotal_eq_of_yields q.stackWeight_turn (hreach.2 (by omega))
    simp only [entryOf, List.reverse_cons, List.reverse_nil, List.nil_append, List.length_nil] at h
    rw [whileStack, h]
    rfl

/-- What is marked when `for start in sources` goes round again is no target. -/
theorem explore_erase_unmarked {s : α} (hs : ¬ q.IsTarget s) {V : Finset α}
    (hV : ∀ x ∈ V, ¬ q.IsTarget x) (r : Nat) :
    ∀ x ∈ (explore q.neighbors q.IsTarget r (insert s V) s []).1.erase s, ¬ q.IsTarget x := by
  intro x hx
  refine explore_unmarked (Finset.mem_insert_self s V) ?_ (by simpa using hs) x
    (Finset.mem_of_mem_erase hx)
  intro y hy
  rcases Finset.mem_insert.mp hy with rfl | hy
  · exact hs
  · exact hV y hy

theorem recordedPaths_cons_target {N : α → List α} {T : α → Prop} [DecidablePred T] {r : Nat}
    {V : Finset α} {s : α} {S : List α} (hs : T s) :
    recordedPaths N T r V (s :: S) = [s] :: recordedPaths N T r V S := by
  simp [recordedPaths, sweep, recordedFrom, hs]

theorem recordedPaths_cons_search {N : α → List α} {T : α → Prop} [DecidablePred T] {r : Nat}
    {V : Finset α} {s : α} {S : List α} (hs : ¬ T s) :
    recordedPaths N T r V (s :: S) =
      (explore N T r (insert s V) s []).2.flatMap (recorded N T) ++
        recordedPaths N T r ((explore N T r (insert s V) s []).1.erase s) S := by
  simp [recordedPaths, sweep, recordedFrom, hs]

/-- `return paths`, early or at the end. -/
def returned : Except (List (List α)) (List (List α) × Finset α) → List (List α)
  | .error paths => paths
  | .ok acc => acc.1

theorem returned_sources (S : List α) (ps : List (List α)) (V : Finset α)
    (hps : (ps.length : Int) < q.hardCap) (hV : ∀ x ∈ V, ¬ q.IsTarget x) :
    returned (S.foldlM q.fromSource (ps, V)) =
      (ps ++ recordedPaths q.neighbors q.IsTarget q.depthCap.toNat V S).take q.hardCap.toNat := by
  induction S generalizing ps V with
  | nil =>
    rw [List.take_of_length_le (by simp [recordedPaths, sweep]; omega)]
    simp [recordedPaths, sweep, returned, pure, Except.pure]
  | cons s S ih =>
    rw [List.foldlM_cons]
    by_cases hs : q.IsTarget s
    · have happ : ps ++ [s] :: recordedPaths q.neighbors q.IsTarget q.depthCap.toNat V S =
          ps ++ [[s]] ++ recordedPaths q.neighbors q.IsTarget q.depthCap.toNat V S := by simp
      rw [fromSource_target hs, recordedPaths_cons_target hs, happ]
      split
      · next hlt => exact ih _ V hlt hV
      · next hge =>
        have hlen : (ps ++ [[s]]).length = q.hardCap.toNat := by
          rw [List.length_append, List.length_singleton] at hge ⊢
          omega
        rw [← hlen, List.take_left]
        rfl
    · rw [fromSource_search hs ps V hps hV, recordedPaths_cons_search hs, ← List.append_assoc]
      dsimp only
      split
      · next hlt => exact ih _ _ hlt (explore_erase_unmarked hs hV _)
      · next hge =>
        exact (take_of_cap (by omega)).symm

end Query

/-- The search with its caps is the recursive search, cut off after `hard_cap` paths. -/
theorem enumerateSimplePaths_eq (neighbors : α → List α) (sources targets : FrozenSet α)
    (depthCap hardCap : Int) (hcap : 1 ≤ hardCap) :
    enumerateSimplePaths neighbors sources targets depthCap hardCap =
      (recordedPaths neighbors (· ∈ targets) depthCap.toNat ∅ sources.elems).take
        hardCap.toNat := by
  have h := Query.returned_sources (q := ⟨neighbors, targets, depthCap, hardCap⟩) sources.elems
    [] ∅ (by simp; omega) (by simp)
  exact h

end TraxMania.Corridor
