import TraxMania.Learning.WhatIsBuilt
import Mathlib.Data.List.Chain

/-
  The construction stream decodes to the driven route. A decoder follows the tokens with a cursor
  of its own and a list of first visits: it comes to the cells of the exported visits in order, each
  with the placement it was a visit to.
-/

namespace TraxMania.Learning

open TraxMania.Driven TraxMania.Grid Lib

/-! ## The decoder -/

/-- What the tokens say so far: the cursor, the cells of the first visits, and for every visit its
    cell and its place among the first visits. -/
structure Replay where
  cursor : Cell
  firstVisits : List Cell
  route : List (Cell × Nat)
deriving DecidableEq

def Replay.start : Replay := ⟨⟨0, 0, 0⟩, [], []⟩

/-- The cursor moves by a delta onto a new block. -/
def Replay.place (r : Replay) (dx dy dz : Int) : Replay :=
  let c : Cell := ⟨r.cursor.x + dx, r.cursor.y + dy, r.cursor.z + dz⟩
  ⟨c, r.firstVisits ++ [c], r.route ++ [(c, r.firstVisits.length)]⟩

/-- The cursor moves to the `back`-th last first visit. -/
def Replay.back (r : Replay) (back : Int) : Option Replay :=
  if 1 ≤ back ∧ back ≤ r.firstVisits.length then
    (r.firstVisits[r.firstVisits.length - back.toNat]?).map fun c =>
      ⟨c, r.firstVisits, r.route ++ [(c, r.firstVisits.length - back.toNat)]⟩
  else none

/-- PLACE and REVISIT move the cursor, JUMP and GAP leave it. -/
def replayToken (r : Replay) : Token → Option Replay
  | .place _ d _ _ =>
    match d with
    | [dx, dy, dz] => some (r.place dx dy dz)
    | _ => none
  | .revisit back => r.back back
  | .jump => some r
  | .gap => some r
  | .other _ => none

/-- The decoder. -/
def replay (tokens : List Token) : Option Replay := tokens.foldlM replayToken Replay.start

theorem replay_append (before after : List Token) :
    replay (before ++ after) = (replay before).bind fun r => after.foldlM replayToken r := by
  unfold replay
  exact List.foldlM_append

theorem replay_concat (tokens : List Token) (token : Token) :
    replay (tokens ++ [token]) = (replay tokens).bind fun r => replayToken r token := by
  rw [replay_append]
  refine Option.bind_congr fun r _ => ?_
  exact bind_pure (replayToken r token)

theorem back_eq_some {r r' : Replay} {back : Int} (h : r.back back = some r') :
    (1 ≤ back ∧ back ≤ r.firstVisits.length) ∧
      ∃ c, r.firstVisits[r.firstVisits.length - back.toNat]? = some c ∧
        r' = ⟨c, r.firstVisits, r.route ++ [(c, r.firstVisits.length - back.toNat)]⟩ := by
  unfold Replay.back at h
  split at h
  · next hback =>
    obtain ⟨c, hc, rfl⟩ := Option.map_eq_some_iff.mp h
    exact ⟨hback, c, hc, rfl⟩
  · cases h

/-- A REVISIT token. -/
def Token.isRevisit : Token → Bool
  | .revisit _ => true
  | _ => false

/-- The first visits are the PLACE tokens. -/
theorem length_firstVisits {tokens : List Token} {r : Replay} (h : replay tokens = some r) :
    r.firstVisits.length = tokens.countP Token.isPlace := by
  induction tokens using List.reverseRecOn generalizing r with
  | nil =>
    cases h
    rfl
  | append_singleton tokens token ih =>
    rw [replay_concat] at h
    obtain ⟨r', hr', h⟩ := Option.bind_eq_some_iff.mp h
    have hlength := ih hr'
    rw [List.countP_append, ← hlength]
    cases token with
    | place block d rot free =>
      match d, h with
      | [dx, dy, dz], h =>
        cases h
        unfold Replay.place
        rw [List.length_append]
        rfl
    | revisit back =>
      obtain ⟨-, c, -, rfl⟩ := back_eq_some h
      rfl
    | jump =>
      cases h
      rfl
    | gap =>
      cases h
      rfl
    | other op => cases h

/-- In a stream that decodes, a REVISIT goes back to a block that has been placed before it. -/
theorem back_bounds {before after : List Token} {back : Int} {r : Replay}
    (h : replay (before ++ .revisit back :: after) = some r) :
    1 ≤ back ∧ back ≤ before.countP Token.isPlace := by
  rw [replay_append] at h
  obtain ⟨r', hr', h⟩ := Option.bind_eq_some_iff.mp h
  rw [List.foldlM_cons] at h
  obtain ⟨r'', hr'', -⟩ := Option.bind_eq_some_iff.mp h
  obtain ⟨hback, -⟩ := back_eq_some hr''
  rwa [length_firstVisits hr'] at hback

/-! ## One visit -/

/-- No token of context stands beside one of its kind. -/
def Apart (a b : Token) : Prop := ¬ (a = .jump ∧ b = .jump) ∧ ¬ (a = .gap ∧ b = .gap)

theorem apart_jump {a : Token} (ha : a ≠ .jump) : Apart a .jump := by
  refine ⟨fun h => ha h.1, fun h => ?_⟩
  cases h.2

theorem apart_gap {a : Token} (ha : a ≠ .gap) : Apart a .gap := by
  refine ⟨fun h => ?_, fun h => ha h.1⟩
  cases h.2

theorem apart_of_not_context {a b : Token} (hb : b.isContext = false) : Apart a b := by
  constructor
  · intro h
    rw [h.2] at hb
    cases hb
  · intro h
    rw [h.2] at hb
    cases hb

/-- The statistics count the tokens that have been written. -/
structure StatsAgree (stats : ExportStats) (s : ExportState) : Prop where
  places : s.stats.places = stats.places + s.tokens.countP Token.isPlace
  revisits : s.stats.revisits = stats.revisits + s.tokens.countP Token.isRevisit
  jumps : s.stats.jumps = stats.jumps + s.tokens.countP fun t => decide (t = .jump)
  gaps : s.stats.gaps = stats.gaps + s.tokens.countP fun t => decide (t = .gap)

section

variable {σ : Type} [Metres σ] {placements : Dict Int (ExportPlacement σ)}

/-- What every turn of the loop keeps holds after the loop. -/
theorem exportVisits_induct {P : ExportState → Prop} {stats : ExportStats}
    (hstart : P (ExportState.start stats))
    (hturn : ∀ s v s', P s → Turn placements s v s' → P s') (visits : List BlockVisit) :
    P (exportVisits visits placements stats) := by
  unfold exportVisits
  induction visits using List.reverseRecOn with
  | nil => exact hstart
  | append_singleton visits v ih =>
    rw [List.foldl_append]
    exact hturn _ v _ ih (turn_exportVisit placements _ v)

theorem isChain_concat {tokens : List Token} {token : Token} (h : tokens.IsChain Apart)
    (hlast : ∀ last ∈ tokens.getLast?, Apart last token) : (tokens ++ [token]).IsChain Apart := by
  rw [List.isChain_append]
  refine ⟨h, List.isChain_singleton token, fun a ha b hb => ?_⟩
  obtain rfl : token = b := Option.some.inj hb
  exact hlast a ha

/-- The context of a stretch is written once. -/
theorem isChain_context {s : ExportState} (h : s.tokens.IsChain Apart) {token : Token}
    (hapart : ∀ last, last ≠ token → Apart last token) (count : ExportStats → ExportStats) :
    (s.context token count).tokens.IsChain Apart := by
  unfold ExportState.context
  split
  · exact h
  · next hne =>
    refine isChain_concat h fun last hlast => hapart last fun heq => hne ?_
    rw [← heq]
    exact hlast

theorem isChain_turn {s s' : ExportState} {v : BlockVisit} (h : s.tokens.IsChain Apart)
    (hturn : Turn placements s v s') : s'.tokens.IsChain Apart := by
  cases hturn with
  | jump hnone =>
    exact isChain_context h (fun _ hne => apart_jump hne) _
  | gap hnone =>
    exact isChain_context h (fun _ hne => apart_gap hne) _
  | skip hnone => exact h
  | revisit pid p i hp hset hdriven =>
    exact isChain_concat h fun _ _ => apart_of_not_context rfl
  | place e hdriven hp hc hset =>
    exact isChain_concat h fun _ _ => apart_of_not_context rfl

theorem counted_turn {stats : ExportStats} {s s' : ExportState} {v : BlockVisit}
    (h : StatsAgree stats s) (hturn : Turn placements s v s') : StatsAgree stats s' := by
  obtain ⟨hplaces, hrevisits, hjumps, hgaps⟩ := h
  cases hturn with
  | jump hnone =>
    unfold ExportState.context
    split
    · exact ⟨hplaces, hrevisits, hjumps, hgaps⟩
    · constructor <;> simp only [List.countP_append] <;> simp [Token.isPlace, Token.isRevisit] <;>
        omega
  | gap hnone =>
    unfold ExportState.context
    split
    · exact ⟨hplaces, hrevisits, hjumps, hgaps⟩
    · constructor <;> simp only [List.countP_append] <;> simp [Token.isPlace, Token.isRevisit] <;>
        omega
  | skip hnone => exact ⟨hplaces, hrevisits, hjumps, hgaps⟩
  | revisit pid p i hp hset hdriven =>
    unfold ExportState.revisit
    constructor <;> simp only [List.countP_append] <;> simp [Token.isPlace, Token.isRevisit] <;>
      omega
  | place e hdriven hp hc hset =>
    unfold ExportState.place
    constructor <;> simp only [List.countP_append] <;> simp [Token.isPlace, Token.isRevisit] <;>
      omega

/-- The loop leaves the number of all tokens to the end. -/
theorem tokens_turn {s s' : ExportState} {v : BlockVisit} (hturn : Turn placements s v s') :
    s'.stats.tokens = s.stats.tokens := by
  cases hturn with
  | jump hnone =>
    unfold ExportState.context
    split <;> rfl
  | gap hnone =>
    unfold ExportState.context
    split <;> rfl
  | skip hnone => rfl
  | revisit pid p i hp hset hdriven => rfl
  | place e hdriven hp hc hset => rfl

/-! ## The route so far -/

/-- The tokens of `s` decode to the exported visits: their cells, with the origin at `base`, and
    their placements. -/
structure Decoded (placements : Dict Int (ExportPlacement σ)) (base : Cell)
    (visits : List BlockVisit) (s : ExportState) (t : RawState) (route : List (Cell × Nat)) :
    Prop where
  followed : Followed placements base (exported placements visits) s t
  read : replay s.tokens = some ⟨t.cur, t.placed, route⟩
  cells : route.map Prod.fst =
    (visits.filterMap (drivenBlock placements)).map fun e => e.2.2 - base
  ids : route.map (fun v => ((exported placements visits)[v.2]?).map Prod.fst) =
    (visits.filterMap (drivenBlock placements)).map fun e => some e.1

variable {base : Cell} {visits : List BlockVisit} {s : ExportState} {t : RawState}
  {route : List (Cell × Nat)}

theorem Decoded.start (base : Cell) (stats : ExportStats) :
    Decoded placements base [] (ExportState.start stats) RawState.start [] :=
  ⟨Followed.start base stats, rfl, rfl, rfl⟩

theorem driven_of_none {v : BlockVisit} (hv : drivenBlock placements v = none) :
    (visits ++ [v]).filterMap (drivenBlock placements) =
      visits.filterMap (drivenBlock placements) := by
  rw [List.filterMap_append, List.filterMap_cons_none hv, List.filterMap_nil, List.append_nil]

theorem driven_of_some {v : BlockVisit} {e : Int × ExportPlacement σ × Cell}
    (hv : drivenBlock placements v = some e) :
    (visits ++ [v]).filterMap (drivenBlock placements) =
      visits.filterMap (drivenBlock placements) ++ [e] := by
  rw [List.filterMap_append, List.filterMap_cons_some hv, List.filterMap_nil]

/-- A visit that exports no block, and a token of context at most. -/
theorem Decoded.context (h : Decoded placements base visits s t route) {v : BlockVisit}
    (hnone : drivenBlock placements v = none) {token : Token}
    (hraw : ∀ t, rawStep t token = .ok t) (htoken : ∀ r, replayToken r token = some r)
    (count : ExportStats → ExportStats) :
    Decoded placements base (visits ++ [v]) (s.context token count) t route := by
  have hread : replay (s.context token count).tokens = some ⟨t.cur, t.placed, route⟩ := by
    unfold ExportState.context
    split
    · exact h.read
    · rw [replay_concat, h.read, Option.bind_some]
      exact htoken _
  refine ⟨?_, hread, ?_, ?_⟩
  · rw [exported_of_none hnone]
    exact h.followed.context hraw count
  · rw [driven_of_none hnone]
    exact h.cells
  · rw [driven_of_none hnone, exported_of_none hnone]
    exact h.ids

theorem Decoded.skip (h : Decoded placements base visits s t route) {v : BlockVisit}
    (hnone : drivenBlock placements v = none) :
    Decoded placements base (visits ++ [v]) s.skip t route := by
  refine ⟨?_, h.read, ?_, ?_⟩
  · rw [exported_of_none hnone]
    exact h.followed.skip
  · rw [driven_of_none hnone]
    exact h.cells
  · rw [driven_of_none hnone, exported_of_none hnone]
    exact h.ids

/-- The places of the route are places in the list of first visits. -/
theorem Decoded.lookup (h : Decoded placements base visits s t route)
    (e : Int × ExportPlacement σ × Cell) :
    route.map (fun v => ((exported placements visits ++ [e])[v.2]?).map Prod.fst) =
      (visits.filterMap (drivenBlock placements)).map fun e => some e.1 := by
  rw [← h.ids]
  refine List.map_congr_left fun v hv => ?_
  have hsome : ((exported placements visits)[v.2]?).map Prod.fst ∈
      (visits.filterMap (drivenBlock placements)).map fun e => some e.1 := by
    rw [← h.ids]
    exact List.mem_map_of_mem hv
  obtain ⟨e', -, he'⟩ := List.mem_map.mp hsome
  obtain ⟨e'', he'', -⟩ := Option.map_eq_some_iff.mp he'.symm
  rw [List.getElem?_append_left (List.getElem?_eq_some_iff.mp he'').1]

/-- A revisit: the cursor goes to the cell of its placement. -/
theorem Decoded.revisit (h : Decoded placements base visits s t route) {v : BlockVisit} {i : Nat}
    {e : Int × ExportPlacement σ × Cell} (he : (exported placements visits)[i]? = some e)
    (hdriven : drivenBlock placements v = some e) :
    Decoded placements base (visits ++ [v]) (s.revisit v e.2.1 i) { t with cur := e.2.2 - base }
      (route ++ [(e.2.2 - base, i)]) := by
  have hexported := exported_of_known hdriven ⟨e, List.mem_of_getElem? he, rfl⟩
  have hplaced : t.placed[i]? = some (e.2.2 - base) := by
    rw [h.followed.placed, List.getElem?_map, he]
    rfl
  have hlength : s.placedOrder.length = t.placed.length := by
    rw [h.followed.order, h.followed.placed, List.length_map, List.length_map]
  have hi : i < t.placed.length := (List.getElem?_eq_some_iff.mp hplaced).1
  have hback : t.placed.length - ((t.placed.length : Int) - i).toNat = i := by omega
  refine ⟨?_, ?_, ?_, ?_⟩
  · rw [hexported]
    exact h.followed.revisit v he
  · unfold ExportState.revisit
    rw [replay_concat, h.read, Option.bind_some, hlength]
    show Replay.back _ _ = _
    unfold Replay.back
    dsimp only
    rw [if_pos (by omega), hback, hplaced]
    rfl
  · rw [driven_of_some hdriven, List.map_append, List.map_append, h.cells]
    rfl
  · rw [driven_of_some hdriven, hexported, List.map_append, List.map_append, h.ids, List.map_singleton, he]
    rfl

/-- A first visit: the cursor moves by the delta, onto the cell of the placement. -/
theorem Decoded.place (h : Decoded placements base visits s t route) {v : BlockVisit}
    {e : Int × ExportPlacement σ × Cell} (hdriven : drivenBlock placements v = some e)
    (hnew : ¬ ∃ e' ∈ exported placements visits, e'.1 = e.1)
    (hbase : exported placements visits = [] → e.2.2 = base) :
    ∃ t', Decoded placements base (visits ++ [v]) (s.place e.1 e.2.1 e.2.2) t'
      (route ++ [(e.2.2 - base, t.placed.length)]) := by
  have hexported := exported_of_new hdriven hnew
  obtain ⟨hp, hc⟩ := drivenBlock_known hdriven
  have hfollowed := h.followed.place hp hc hbase
  have hlength : t.placed.length = (exported placements visits).length := by
    rw [h.followed.placed, List.length_map]
  refine ⟨⟨t.raw ++ [(e.2.2 - base, e.2.1.blockType, some (e.2.1.rotation.getD 0))],
    t.placed ++ [e.2.2 - base], e.2.2 - base⟩, ⟨?_, ?_, ?_, ?_⟩⟩
  · rw [hexported]
    exact hfollowed
  · obtain ⟨dx, dy, dz, hd, hland⟩ := delta_lands (h.followed.cursor e.2.2 hbase)
    unfold ExportState.place
    rw [replay_concat, h.read, Option.bind_some, hd]
    show some (Replay.place _ dx dy dz) = _
    unfold Replay.place
    simp only [hland]
  · rw [driven_of_some hdriven, List.map_append, List.map_append, h.cells]
    rfl
  · rw [driven_of_some hdriven, hexported, List.map_append, List.map_append, h.lookup, List.map_singleton, hlength,
      List.getElem?_concat_length]
    rfl

/-- One more visit. -/
theorem Decoded.visit (h : Decoded placements base visits s t route) (v : BlockVisit)
    (hbase : ∀ e ∈ (exported placements (visits ++ [v])).head?, e.2.2 = base) :
    ∃ t' route', Decoded placements base (visits ++ [v]) (exportVisit placements s v) t' route' := by
  have hturn := turn_exportVisit placements s v
  generalize exportVisit placements s v = s' at hturn
  cases hturn with
  | jump hnone => exact ⟨t, route, h.context hnone (fun _ => rfl) (fun _ => rfl) _⟩
  | gap hnone => exact ⟨t, route, h.context hnone (fun _ => rfl) (fun _ => rfl) _⟩
  | skip hnone => exact ⟨t, route, h.skip hnone⟩
  | revisit pid p i hp hset hdriven =>
    obtain ⟨e, he, rfl, hblock⟩ := h.followed.revisited hp hset hdriven
    exact ⟨_, _, h.revisit he hblock⟩
  | place e hdriven hp hc hset =>
    have hnew := h.followed.unplaced hset
    rw [exported_of_new hdriven hnew] at hbase
    have hfirst : exported placements visits = [] → e.2.2 = base := by
      intro hnil
      rw [hnil] at hbase
      exact hbase e rfl
    obtain ⟨t', ht'⟩ := h.place hdriven hnew hfirst
    exact ⟨t', _, ht'⟩

theorem exists_decoded (placements : Dict Int (ExportPlacement σ)) (visits : List BlockVisit)
    (stats : ExportStats) {base : Cell}
    (hbase : ∀ e ∈ (exported placements visits).head?, e.2.2 = base) :
    ∃ t route, Decoded placements base visits (exportVisits visits placements stats) t route := by
  induction visits using List.reverseRecOn with
  | nil => exact ⟨_, _, Decoded.start base stats⟩
  | append_singleton visits v ih =>
    obtain ⟨t, route, ht⟩ := ih (exported_head_of_concat hbase)
    unfold exportVisits at ht ⊢
    rw [List.foldl_append]
    exact ht.visit v hbase

/-! ## The whole stream -/

/-- The tokens of a capture, as a decoder reads them. `driven` are the visits that export a block,
    `first` the first of these. -/
structure DecodesTo (placements : Dict Int (ExportPlacement σ)) (visits : List BlockVisit)
    (stats : ExportStats) (tokens : List Token) (after : ExportStats) : Prop where
  /-- The decoder comes to the cells of the driven visits, relative to the first of them, each with
      the placement of the visit. -/
  route : ∃ r, replay tokens = some r ∧
    (∀ first ∈ (visits.filterMap (drivenBlock placements)).head?, r.route.map Prod.fst =
      (visits.filterMap (drivenBlock placements)).map fun e => e.2.2 - first.2.2) ∧
    r.route.map (fun v => ((exported placements visits)[v.2]?).map Prod.fst) =
      (visits.filterMap (drivenBlock placements)).map fun e => some e.1
  backs : ∀ before back later, tokens = before ++ .revisit back :: later →
    1 ≤ back ∧ back ≤ before.countP Token.isPlace
  apart : tokens.IsChain Apart
  total : after.tokens = stats.tokens + tokens.length
  places : after.places = stats.places + tokens.countP Token.isPlace
  revisits : after.revisits = stats.revisits + tokens.countP Token.isRevisit
  jumps : after.jumps = stats.jumps + tokens.countP fun t => decide (t = .jump)
  gaps : after.gaps = stats.gaps + tokens.countP fun t => decide (t = .gap)

/-- The first exported placement is that of the first driven visit. -/
theorem head?_exported (placements : Dict Int (ExportPlacement σ)) (visits : List BlockVisit) :
    (exported placements visits).head? =
      (visits.filterMap (drivenBlock placements)).head? := by
  unfold exported
  cases visits.filterMap (drivenBlock placements) with
  | nil => rfl
  | cons e rest =>
    have hnew : e.1 ∉ (∅ : Finset Int) := Finset.notMem_empty e.1
    rw [firsts, firstsFrom_cons_neg hnew]
    rfl

theorem counted_exportVisits (placements : Dict Int (ExportPlacement σ))
    (visits : List BlockVisit) (stats : ExportStats) :
    StatsAgree stats (exportVisits visits placements stats) :=
  exportVisits_induct ⟨rfl, rfl, rfl, rfl⟩ (fun _ _ _ h hturn => counted_turn h hturn) visits

theorem isChain_exportVisits (placements : Dict Int (ExportPlacement σ))
    (visits : List BlockVisit) (stats : ExportStats) :
    (exportVisits visits placements stats).tokens.IsChain Apart :=
  exportVisits_induct List.isChain_nil (fun _ _ _ h hturn => isChain_turn h hturn) visits

theorem tokens_exportVisits (placements : Dict Int (ExportPlacement σ))
    (visits : List BlockVisit) (stats : ExportStats) :
    (exportVisits visits placements stats).stats.tokens = stats.tokens := by
  refine exportVisits_induct (P := fun s => s.stats.tokens = stats.tokens) rfl ?_ visits
  exact fun s v s' h hturn => (tokens_turn hturn).trans h

/-- The construction stream decodes to the driven route. -/
theorem stream_decodes (visits : List BlockVisit) (placements : Dict Int (ExportPlacement σ))
    (stats : ExportStats) :
    DecodesTo placements visits stats (visitsToTokens visits placements stats).1
      (visitsToTokens visits placements stats).2 := by
  obtain ⟨base, hbase⟩ : ∃ base, ∀ e ∈ (exported placements visits).head?, e.2.2 = base := by
    cases (exported placements visits).head? with
    | none => exact ⟨⟨0, 0, 0⟩, fun _ he => by cases he⟩
    | some e => exact ⟨e.2.2, fun e' he' => by rw [Option.mem_some.mp he']⟩
  obtain ⟨t, route, hdecoded⟩ := exists_decoded placements visits stats hbase
  have hcounted := counted_exportVisits placements visits stats
  have hread : replay (visitsToTokens visits placements stats).1 = some ⟨t.cur, t.placed, route⟩ :=
    hdecoded.read
  have hplain := tokens_exportVisits placements visits stats
  refine ⟨⟨_, hread, fun first hfirst => ?_, hdecoded.ids⟩, ?_, isChain_exportVisits _ _ _, ?_,
    hcounted.places, hcounted.revisits, hcounted.jumps, hcounted.gaps⟩
  · rw [← head?_exported] at hfirst
    rw [hbase first hfirst]
    exact hdecoded.cells
  · intro before back later heq
    rw [heq] at hread
    exact back_bounds hread
  · show (exportVisits visits placements stats).stats.tokens + _ = _
    rw [hplain]
    rfl

end

end TraxMania.Learning
