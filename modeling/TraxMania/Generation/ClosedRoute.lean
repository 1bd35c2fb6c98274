import TraxMania.Generation.ClipWalker
import Mathlib.Data.List.Chain

/-
  What the clip walker returns. A route is a chain of legs: a start block left by its one port, a
  finish block entered by its one port, and between them blocks of two ports, entered by the one
  and left by the other. The search keeps `Driven`: placements, occupied cells and open port are
  those of the legs so far.
-/

namespace TraxMania.Generation

open TraxMania.Grid TraxMania.Catalogue Lib Lib.Draw Lib.Backtrack

/-! ## Legs -/

/-- A block of the route as it is driven: in by `entry`, out by `exit`. -/
structure Leg where
  block : Oriented
  anchor : Cell
  entry : Option Port
  exit : Option Port

namespace Leg

def placement (l : Leg) : Placement :=
  Placement.ofAnchor l.block.blockId l.anchor l.block.rotation

def footprint (l : Leg) : List Cell := shiftAll l.anchor l.block.cells

/-- The exit of `l` and the entry of `m` are ports in face-adjacent cells, on opposite faces, with
the same clip. -/
def Joined (l m : Leg) : Prop :=
  ∃ p ∈ l.exit, ∃ q ∈ m.entry, m.anchor + q.cell = l.anchor + p.cell + faceDelta p.face ∧
    q.face = oppositeFace p.face ∧ q.clip = p.clip

def Apart (l m : Leg) : Prop := ∀ c ∈ l.footprint, c ∉ m.footprint

/-- Entry and exit are the route ports of the block, each of them once. -/
def UsesPorts (l : Leg) : Prop := l.block.ports.Perm (l.entry.toList ++ l.exit.toList)

/-- A block in the middle: entered by one port and left by the other, and facing its exit when it
has an arrow. -/
def Middle (l : Leg) : Prop :=
  (l.block.waypoint = "Checkpoint" ∨ l.block.waypoint = "None") ∧
    ∃ q out, l.entry = some q ∧ l.exit = some out ∧ l.block.ports.Perm [q, out] ∧
      (isDirectional l.block.waypoint l.block.blockId →
        rotateFace gateForwardLocalFace l.block.rotation = out.face)

end Leg

/-- `o` is one of the orientations of an allowed block of the catalogue. -/
def FromCatalogue (catalogue : Dict String BlockDef) (allowedIds : List String)
    (routeClips : Finset String) (o : Oriented) : Prop :=
  ∃ id ∈ allowedIds, ∃ block, catalogue.get? id = some block ∧ o ∈ orientations block routeClips

/-- The legs of a route that is closed end to end. -/
structure Closed (catalogue : Dict String BlockDef) (allowedIds : List String)
    (routeClips : Finset String) (legs : List Leg) : Prop where
  catalogued : ∀ l ∈ legs, FromCatalogue catalogue allowedIds routeClips l.block
  usesPorts : ∀ l ∈ legs, l.UsesPorts
  portCells : ∀ l ∈ legs, ∀ p ∈ l.block.ports, p.cell ∈ l.block.cells
  ends : ∃ start middle finish, legs = start :: (middle ++ [finish]) ∧
    start.block.waypoint = "Start" ∧ finish.block.waypoint = "Finish" ∧
    ∀ l ∈ middle, l.Middle
  joined : legs.IsChain Leg.Joined
  apart : legs.Pairwise Leg.Apart
  inBounds : ∀ l ∈ legs.tail, InBounds l.footprint

/-- A port of an oriented block lies in one of its cells. -/
theorem port_cell_mem {block : BlockDef} {routeClips : Finset String} {o : Oriented}
    (ho : o ∈ orientations block routeClips) {p : Port} (hp : p ∈ o.ports) : p.cell ∈ o.cells := by
  unfold orientations at ho
  split at ho
  · cases ho
  · next variant _ =>
    dsimp only at ho
    split at ho
    · cases ho
    · obtain ⟨d, -, rfl⟩ := List.mem_map.mp ho
      obtain ⟨u, hu, rfl⟩ := List.mem_map.mp hp
      obtain ⟨unit, hunit, hoff⟩ := List.mem_map.mp (sidePorts_offset (List.mem_filter.mp hu).1)
      refine List.mem_map.mpr ⟨unit, hunit, ?_⟩
      show rotateOffset unit.offset d variant.size = rotateOffset u.offset d variant.size
      rw [hoff]

/-! ## The walker's pools -/

theorem mem_orientAll {catalogue : Dict String BlockDef} {routeClips : Finset String}
    {ids : List String} {os : List Oriented} (h : orientAll catalogue routeClips ids = .ok os)
    {o : Oriented} (ho : o ∈ os) : FromCatalogue catalogue ids routeClips o := by
  induction ids generalizing os with
  | nil =>
    cases h
    cases ho
  | cons id ids ih =>
    unfold orientAll at h
    split at h
    · cases h
    · next block hblock =>
      split at h
      · cases h
      · next rest hrest =>
        cases h
        rcases List.mem_append.mp ho with ho | ho
        · exact ⟨id, by simp, block, hblock, ho⟩
        · obtain ⟨id', hid', hb⟩ := ih hrest ho
          exact ⟨id', by simp [hid'], hb⟩

theorem mem_poolOf {os : List Oriented} {waypoint : String} {nPorts : Nat} {o : Oriented} :
    o ∈ poolOf os waypoint nPorts ↔ o ∈ os ∧ o.waypoint = waypoint ∧ o.ports.length = nPorts := by
  simp [poolOf]

section Walker

variable {F : Type*}

/-- What the constructor stores. -/
structure Built (catalogue : Dict String BlockDef) (allowedIds : List String)
    (routeClips : Finset String) (w : ClipWalker F) : Prop where
  orient : ∀ o ∈ w.orient, FromCatalogue catalogue allowedIds routeClips o
  starts : w.starts = poolOf w.orient "Start" 1
  finishes : w.finishes = poolOf w.orient "Finish" 1
  checkpoints : w.checkpoints = poolOf w.orient "Checkpoint" 2
  plain : w.plain = poolOf w.orient "None" 2

theorem built_of_init {catalogue : Dict String BlockDef} {allowedIds : List String}
    {routeClips : Finset String} {priors : Option FacePriors} {bias : Dict String F}
    {w : ClipWalker F} (h : ClipWalker.init catalogue allowedIds routeClips priors bias = .ok w) :
    Built catalogue allowedIds routeClips w := by
  unfold ClipWalker.init at h
  split at h
  · cases h
  · next os hos =>
    dsimp only at h
    split at h
    · cases h
    · cases h
      exact ⟨fun o ho => mem_orientAll hos ho, rfl, rfl, rfl, rfl⟩

variable {catalogue : Dict String BlockDef} {allowedIds : List String}
  {routeClips : Finset String} {w : ClipWalker F} {length checkpointEvery : Int}

/-- In the pool: a finish once the length is reached, before that a block of two ports. -/
theorem mem_pool (hw : Built catalogue allowedIds routeClips w) {steps : Int} {o : Oriented}
    (h : o ∈ w.pool length checkpointEvery steps) :
    o ∈ w.orient ∧
      (length ≤ steps ∧ o.waypoint = "Finish" ∨
        steps < length ∧ (o.waypoint = "Checkpoint" ∨ o.waypoint = "None")) := by
  unfold ClipWalker.pool at h
  have hplain : o ∈ w.plain → o ∈ w.orient ∧ (o.waypoint = "Checkpoint" ∨ o.waypoint = "None") := by
    intro h
    rw [hw.plain, mem_poolOf] at h
    exact ⟨h.1, Or.inr h.2.1⟩
  split at h
  · next hlen =>
    rw [hw.finishes, mem_poolOf] at h
    exact ⟨h.1, Or.inl ⟨hlen, h.2.1⟩⟩
  · next hlen =>
    have hlt : steps < length := by omega
    split at h
    · split at h
      · exact ⟨(hplain h).1, Or.inr ⟨hlt, (hplain h).2⟩⟩
      · rw [hw.checkpoints, mem_poolOf] at h
        exact ⟨h.1, Or.inr ⟨hlt, Or.inl h.2.1⟩⟩
    · exact ⟨(hplain h).1, Or.inr ⟨hlt, (hplain h).2⟩⟩

/-! ## The legs so far -/

/-- The leg a candidate makes when it is entered at `n` and left by `exit`. -/
def Entering.leg (m : Entering) (n : ClipNode) (exit : Option Port) : Leg :=
  ⟨m.cand, m.anchor n, some m.entry, exit⟩

/-- At the node `n` the legs `start :: middle` stand, and the port out of the last one is open. -/
structure Driven (w : ClipWalker F) (length : Int) (n : ClipNode) (k : ClipState) (start : Leg)
    (middle : List Leg) : Prop where
  placements : k.placements = (start :: middle).map Leg.placement
  occupied : ∀ c, c ∈ k.occupied ↔ ∃ l ∈ start :: middle, c ∈ l.footprint
  startBlock : start.block ∈ w.starts
  orient : ∀ l ∈ start :: middle, l.block ∈ w.orient
  usesPorts : ∀ l ∈ start :: middle, l.UsesPorts
  between : ∀ l ∈ middle, l.Middle
  joined : (start :: middle).IsChain Leg.Joined
  apart : (start :: middle).Pairwise Leg.Apart
  inBounds : ∀ l ∈ middle, InBounds l.footprint
  openPort : ∀ l ∈ (start :: middle).getLast?, ∃ out, l.exit = some out ∧
    n.wcell = l.anchor + out.cell ∧ n.wface = out.face ∧ n.clip = out.clip
  steps : n.steps = middle.length + 1
  short : n.steps ≤ max length 1

/-- The two ports of a block of which one is the entry. -/
theorem ports_perm {m : Entering} (h : m.cand.ports[m.index]? = some m.entry) {exits : List Port}
    (hexits : m.exits = exits) : m.cand.ports.Perm (m.entry :: exits) := by
  obtain ⟨hlt, hget⟩ := List.getElem?_eq_some_iff.mp h
  have hperm := List.getElem_cons_eraseIdx_perm hlt
  rw [hget, show m.cand.ports.eraseIdx m.index = exits from hexits] at hperm
  exact hperm.symm

namespace Driven

variable {n : ClipNode} {k : ClipState} {start : Leg} {middle : List Leg} {m : Entering}

/-- The next block meets the open port. -/
theorem joined_leg (hd : Driven w length n k start middle) (hfits : m.Fits n k)
    (exit : Option Port) : ∀ l ∈ (start :: middle).getLast?, l.Joined (m.leg n exit) := by
  intro l hl
  obtain ⟨out, hout, hcell, hface, hclip⟩ := hd.openPort l hl
  refine ⟨out, hout, m.entry, rfl, ?_, ?_, ?_⟩
  · show n.wcell + faceDelta n.wface - m.entry.cell + m.entry.cell = _
    rw [hcell, hface]
    exact Cell.sub_add_self _ _
  · rw [hfits.1.1, hface]
  · rw [hfits.1.2, hclip]

/-- The next block stands clear of the legs so far. -/
theorem apart_leg (hd : Driven w length n k start middle) (hfits : m.Fits n k)
    (exit : Option Port) : ∀ l ∈ start :: middle, l.Apart (m.leg n exit) := by
  intro l hl c hc hc'
  exact hfits.2.2 c hc' ((hd.occupied c).mpr ⟨l, hl, hc⟩)

theorem joined_append (hd : Driven w length n k start middle) (hfits : m.Fits n k)
    (exit : Option Port) : ((start :: middle) ++ [m.leg n exit]).IsChain Leg.Joined := by
  rw [List.isChain_append]
  refine ⟨hd.joined, List.isChain_singleton _, fun l hl l' hl' => ?_⟩
  obtain rfl := Option.some.inj hl'
  exact hd.joined_leg hfits exit l hl

theorem apart_append (hd : Driven w length n k start middle) (hfits : m.Fits n k)
    (exit : Option Port) : ((start :: middle) ++ [m.leg n exit]).Pairwise Leg.Apart := by
  rw [List.pairwise_append]
  refine ⟨hd.apart, List.pairwise_singleton _ _, fun l hl l' hl' => ?_⟩
  rw [List.mem_singleton] at hl'
  rw [hl']
  exact hd.apart_leg hfits exit l hl

/-- The placement of the next block goes to the end. -/
theorem placements_append (hd : Driven w length n k start middle) (exit : Option Port) :
    k.placements ++ [m.placement n] =
      ((start :: middle) ++ [m.leg n exit]).map Leg.placement := by
  rw [List.map_append, hd.placements]
  rfl

end Driven

/-- The start block alone, with its port open. -/
theorem driven_start (hw : Built catalogue allowedIds routeClips w) {start : Oriented}
    (hstart : start ∈ w.starts) {port : Port} (hports : start.ports = [port]) :
    Driven w length ⟨origin + port.cell, port.face, port.clip, 1⟩
      ⟨[Placement.ofAnchor start.blockId origin start.rotation],
        (shiftAll origin start.cells).toFinset⟩ ⟨start, origin, none, some port⟩ [] := by
  have horient : start ∈ w.orient := by
    rw [hw.starts, mem_poolOf] at hstart
    exact hstart.1
  exact {
    placements := rfl
    occupied := by
      intro c
      rw [List.mem_toFinset]
      simp only [List.mem_singleton, exists_eq_left]
      exact Iff.rfl
    startBlock := hstart
    orient := by
      intro l hl
      rw [List.mem_singleton.mp hl]
      exact horient
    usesPorts := by
      intro l hl
      rw [List.mem_singleton.mp hl]
      show start.ports.Perm [port]
      rw [hports]
    between := by
      intro l hl
      cases hl
    joined := List.isChain_singleton _
    apart := List.pairwise_singleton _ _
    inBounds := by
      intro l hl
      cases hl
    openPort := by
      intro l hl
      obtain rfl := Option.some.inj hl
      exact ⟨port, rfl, rfl, rfl, rfl⟩
    steps := rfl
    short := le_max_right _ _ }

/-! ## One turn of the search -/

section Search

variable {ρ : Type*} [Zero F] [Add F] [Mul F] [LE F] [DecidableLE F] [IntCast F] [OfScientific F]
  {R : Rng ρ F} {maxExpansions : Int}

theorem mem_orderCandidates {pool : List Oriented} {prev : Placement} {clip : String} {r : ρ}
    {o : Oriented} (h : o ∈ (w.orderCandidates R pool prev clip r).1) : o ∈ pool := by
  unfold ClipWalker.orderCandidates at h
  split at h
  · exact mem_of_mem_shuffle h
  · have hlen : (pool.map fun cand => (cand, w.weight prev cand clip)).length ≤ pool.length := by
      rw [List.length_map]
    have hmem := (drawAll_perm R (fun _ => false) hlen r).mem_iff.mp h
    rwa [List.map_map, show (Prod.fst ∘ fun cand => (cand, w.weight prev cand clip)) = id from rfl,
      List.map_id] at hmem

/-- What is tried at a node comes from the pool and is entered by one of its ports. -/
theorem offered_spec {n : ClipNode} {k : ClipState} {m : Entering}
    (h : (w.search R length checkpointEvery maxExpansions).Offered n k m) :
    m.cand ∈ w.pool length checkpointEvery n.steps ∧ m.cand.ports[m.index]? = some m.entry := by
  obtain ⟨a, ms, a', he, hm⟩ := h
  change w.expand R length checkpointEvery maxExpansions n k a = .ok (ms, a') at he
  unfold ClipWalker.expand at he
  dsimp only at he
  split at he
  · cases he
  · split at he
    · cases he
    · cases he
      obtain ⟨cand, hcand, hm⟩ := List.mem_flatMap.mp hm
      obtain ⟨⟨entry, index⟩, hport, rfl⟩ := List.mem_map.mp hm
      exact ⟨mem_orderCandidates hcand, List.mem_zipIdx_iff_getElem?.mp hport⟩

namespace Driven

variable {n : ClipNode} {k : ClipState} {start : Leg} {middle : List Leg} {m : Entering}

/-- A block that is not the finish is placed and left by its other port. -/
theorem step (hw : Built catalogue allowedIds routeClips w) (hd : Driven w length n k start middle)
    (hoffered : (w.search R length checkpointEvery maxExpansions).Offered n k m)
    (hfits : m.Fits n k) (hfinish : m.cand.waypoint ≠ "Finish") {out : Port}
    (hexits : m.exits = [out]) (htravel : m.FacesTravel out) :
    Driven w length ⟨m.anchor n + out.cell, out.face, out.clip, n.steps + 1⟩
      ⟨k.placements ++ [m.placement n], k.occupied ∪ (m.footprint n).toFinset⟩ start
      (middle ++ [m.leg n (some out)]) := by
  obtain ⟨hpool, hentry⟩ := offered_spec hoffered
  obtain ⟨horient, hkind⟩ := mem_pool hw hpool
  have hlt : n.steps < length ∧ (m.cand.waypoint = "Checkpoint" ∨ m.cand.waypoint = "None") := by
    rcases hkind with ⟨-, h⟩ | h
    · exact absurd h hfinish
    · exact h
  have hperm := ports_perm hentry hexits
  exact {
    placements := hd.placements_append (some out)
    occupied := by
      intro c
      rw [Finset.mem_union, hd.occupied, List.mem_toFinset, ← List.cons_append]
      simp only [List.mem_append, List.mem_singleton, or_and_right, exists_or, exists_eq_left]
      exact Iff.rfl
    startBlock := hd.startBlock
    orient := by
      intro l hl
      rw [← List.cons_append, List.mem_append, List.mem_singleton] at hl
      rcases hl with hl | rfl
      · exact hd.orient l hl
      · exact horient
    usesPorts := by
      intro l hl
      rw [← List.cons_append, List.mem_append, List.mem_singleton] at hl
      rcases hl with hl | rfl
      · exact hd.usesPorts l hl
      · exact hperm
    between := by
      intro l hl
      rw [List.mem_append, List.mem_singleton] at hl
      rcases hl with hl | rfl
      · exact hd.between l hl
      · exact ⟨hlt.2, m.entry, out, rfl, rfl, hperm, htravel⟩
    joined := hd.joined_append hfits (some out)
    apart := hd.apart_append hfits (some out)
    inBounds := by
      intro l hl
      rw [List.mem_append, List.mem_singleton] at hl
      rcases hl with hl | rfl
      · exact hd.inBounds l hl
      · exact hfits.2.1
    openPort := by
      intro l hl
      rw [← List.cons_append, List.getLast?_concat] at hl
      obtain rfl := Option.some.inj hl
      exact ⟨out, rfl, rfl, rfl, rfl⟩
    steps := by
      have := hd.steps
      rw [List.length_append, List.length_singleton]
      push_cast
      omega
    short := by
      have := hd.short
      show n.steps + 1 ≤ max length 1
      omega }

/-- A finish closes the route. -/
theorem close (hw : Built catalogue allowedIds routeClips w) (hd : Driven w length n k start middle)
    (hoffered : (w.search R length checkpointEvery maxExpansions).Offered n k m)
    (hfits : m.Fits n k) (hfinish : m.cand.waypoint = "Finish") (hexits : m.exits = []) :
    Closed catalogue allowedIds routeClips ((start :: middle) ++ [m.leg n none]) ∧
      (((start :: middle) ++ [m.leg n none]).length : Int) = max length 1 + 1 := by
  obtain ⟨hpool, hentry⟩ := offered_spec hoffered
  obtain ⟨horient, hkind⟩ := mem_pool hw hpool
  have hlen : length ≤ n.steps := by
    rcases hkind with h | ⟨-, h | h⟩
    · exact h.1
    · exact absurd (hfinish.symm.trans h) (by decide)
    · exact absurd (hfinish.symm.trans h) (by decide)
  have hstart := hd.startBlock
  rw [hw.starts, mem_poolOf] at hstart
  have hall : ∀ l ∈ (start :: middle) ++ [m.leg n none], l.block ∈ w.orient := by
    intro l hl
    rw [List.mem_append, List.mem_singleton] at hl
    rcases hl with hl | rfl
    · exact hd.orient l hl
    · exact horient
  refine ⟨?_, ?_⟩
  · exact {
      catalogued := fun l hl => hw.orient l.block (hall l hl)
      usesPorts := by
        intro l hl
        rw [List.mem_append, List.mem_singleton] at hl
        rcases hl with hl | rfl
        · exact hd.usesPorts l hl
        · exact ports_perm hentry hexits
      portCells := by
        intro l hl p hp
        obtain ⟨id, -, block, -, ho⟩ := hw.orient l.block (hall l hl)
        exact port_cell_mem ho hp
      ends := ⟨start, middle, m.leg n none, rfl, hstart.2.1, hfinish, hd.between⟩
      joined := hd.joined_append hfits none
      apart := hd.apart_append hfits none
      inBounds := by
        intro l hl
        rw [List.cons_append, List.tail_cons, List.mem_append, List.mem_singleton] at hl
        rcases hl with hl | rfl
        · exact hd.inBounds l hl
        · exact hfits.2.1 }
  · have hsteps := hd.steps
    have hshort := hd.short
    rw [List.length_append, List.length_cons, List.length_singleton]
    push_cast
    omega

end Driven

/-! ## The whole search -/

/-- The outcomes of one turn of the inner loops. -/
theorem tryEntering_cases {n : ClipNode} {k : ClipState} {m : Entering} :
    tryEntering n k m = .skip ∨
      m.Fits n k ∧ m.cand.waypoint = "Finish" ∧ m.exits = [] ∧
        tryEntering n k m = .close { k with placements := k.placements ++ [m.placement n] } ∨
      m.Fits n k ∧ m.cand.waypoint ≠ "Finish" ∧ ∃ out, m.exits = [out] ∧ m.FacesTravel out ∧
        tryEntering n k m =
          .descend ⟨k.placements ++ [m.placement n], k.occupied ∪ (m.footprint n).toFinset⟩
            ⟨m.anchor n + out.cell, out.face, out.clip, n.steps + 1⟩ (undoEntering n m) := by
  unfold tryEntering
  by_cases hfits : m.Fits n k
  · rw [if_pos hfits]
    by_cases hfinish : m.cand.waypoint = "Finish"
    · rw [if_pos hfinish]
      by_cases hexits : m.exits = []
      · rw [if_pos hexits]
        exact Or.inr (Or.inl ⟨hfits, hfinish, hexits, rfl⟩)
      · rw [if_neg hexits]
        exact Or.inl rfl
    · rw [if_neg hfinish]
      split
      · next out hexits =>
        by_cases htravel : m.FacesTravel out
        · rw [if_pos htravel]
          exact Or.inr (Or.inr ⟨hfits, hfinish, out, hexits, htravel, rfl⟩)
        · rw [if_neg htravel]
          exact Or.inl rfl
      · exact Or.inl rfl
  · rw [if_neg hfits]
    exact Or.inl rfl

/-- Taking a block back restores placements and occupied cells: its footprint was free. -/
theorem search_undoes : (w.search R length checkpointEvery maxExpansions).Undoes := by
  intro n k m k' n' back _ hat
  change tryEntering n k m = .descend k' n' back at hat
  rcases tryEntering_cases (n := n) (k := k) (m := m) with h | ⟨-, -, -, h⟩ | ⟨hfits, -, out, -, -, h⟩
  · rw [h] at hat
    cases hat
  · rw [h] at hat
    cases hat
  · rw [h] at hat
    cases hat
    have hfree : Disjoint k.occupied (m.footprint n).toFinset := by
      rw [Finset.disjoint_right]
      intro c hc
      exact hfits.2.2 c (List.mem_toFinset.mp hc)
    show (⟨(k.placements ++ [m.placement n]).dropLast,
      (k.occupied ∪ (m.footprint n).toFinset) \ (m.footprint n).toFinset⟩ : ClipState) = k
    rw [List.dropLast_concat, Finset.union_sdiff_cancel_right hfree]

/-- What a chain of moves from a driven prefix ends in. -/
theorem closed_of_leads (hw : Built catalogue allowedIds routeClips w) {n : ClipNode}
    {k k' : ClipState} (h : (w.search R length checkpointEvery maxExpansions).Leads n k k')
    {start : Leg} {middle : List Leg} (hd : Driven w length n k start middle) :
    ∃ legs, k'.placements = legs.map Leg.placement ∧
      Closed catalogue allowedIds routeClips legs ∧ (legs.length : Int) = max length 1 + 1 := by
  induction h generalizing middle with
  | @close n k k' m hoffered hat =>
    change tryEntering n k m = .close k' at hat
    rcases tryEntering_cases (n := n) (k := k) (m := m) with
      h | ⟨hfits, hfinish, hexits, h⟩ | ⟨-, -, out, -, -, h⟩
    · rw [h] at hat
      cases hat
    · rw [h] at hat
      cases hat
      exact ⟨_, hd.placements_append none, hd.close hw hoffered hfits hfinish hexits⟩
    · rw [h] at hat
      cases hat
  | @descend n n₁ k k₁ k' m back hoffered hat _ ih =>
    change tryEntering n k m = .descend k₁ n₁ back at hat
    rcases tryEntering_cases (n := n) (k := k) (m := m) with
      h | ⟨-, -, -, h⟩ | ⟨hfits, hfinish, out, hexits, htravel, h⟩
    · rw [h] at hat
      cases hat
    · rw [h] at hat
      cases hat
    · rw [h] at hat
      cases hat
      exact ih (hd.step hw hoffered hfits hfinish hexits htravel)

/-- Every node uses up one expansion of the budget. -/
theorem search_spends : (w.search R length checkpointEvery maxExpansions).Spends
    fun a => (maxExpansions - a.expansions).toNat where
  expand := by
    intro n k a ms a' he
    change w.expand R length checkpointEvery maxExpansions n k a = .ok (ms, a') at he
    unfold ClipWalker.expand at he
    dsimp only at he
    split at he
    · cases he
    · next hbudget =>
      split at he
      · cases he
      · cases he
        show (maxExpansions - (a.expansions + 1)).toNat < (maxExpansions - a.expansions).toNat
        omega
  note _ _ := rfl
  unnote _ := rfl

/-- The budget ends the recursion of `dfs` before the fuel does. -/
theorem generateFrom_fuel (start : Oriented) (r : ρ) (d : Nat) :
    w.generateFrom R length checkpointEvery maxExpansions (maxExpansions.toNat + 1 + d) start r =
      w.generateFrom R length checkpointEvery maxExpansions (maxExpansions.toNat + 1) start r := by
  have hdfs : ∀ n k, (w.search R length checkpointEvery maxExpansions).dfs (.routeDeadEnd "")
        (maxExpansions.toNat + 1 + d) n k ⟨0, r⟩ =
      (w.search R length checkpointEvery maxExpansions).dfs (.routeDeadEnd "")
        (maxExpansions.toNat + 1) n k ⟨0, r⟩ :=
    fun n k => Search.dfs_fuel_add search_spends n k _
      (Nat.lt_succ_of_le (Nat.le_of_eq (congrArg Int.toNat (Int.sub_zero maxExpansions)))) d
  unfold ClipWalker.generateFrom
  split
  · rfl
  · dsimp only
    rw [hdfs]

/-- Every route the walker returns is closed end to end. -/
theorem generate_closed {priors : Option FacePriors} {bias : Dict String F}
    (hw : ClipWalker.init catalogue allowedIds routeClips priors bias = .ok w) {r : ρ}
    {route : List Placement}
    (h : w.generate R length checkpointEvery maxExpansions r = .ok route) :
    ∃ legs : List Leg, route = legs.map Leg.placement ∧
      Closed catalogue allowedIds routeClips legs ∧ (route.length : Int) = max length 1 + 1 := by
  have hb := built_of_init hw
  unfold ClipWalker.generate at h
  split at h
  · cases h
  · next start r' hchoice =>
    have hstart := choice_mem hchoice
    have hports : start.ports.length = 1 := by
      rw [hb.starts, mem_poolOf] at hstart
      exact hstart.2.2
    obtain ⟨port, hport⟩ := List.length_eq_one_iff.mp hports
    unfold ClipWalker.generateFrom at h
    rw [hport] at h
    dsimp only at h
    split at h
    · next k a hfound =>
      cases h
      obtain ⟨legs, hlegs, hclosed, hlen⟩ :=
        closed_of_leads hb (Search.dfs_found search_undoes hfound) (driven_start hb hstart hport)
      refine ⟨legs, hlegs, hclosed, ?_⟩
      rw [hlegs, List.length_map]
      exact hlen
    · cases h
    · cases h

end Search

end Walker

/-! ## A bend from a start to a finish -/

/-- One cell with the clip `"R"` on the given faces. -/
def tile (blockId waypoint : String) (faces : List String) (h : faces.Nodup) : BlockDef :=
  ⟨blockId, waypoint, [⟨"ground", 0, ⟨1, 1, 1⟩, [⟨⟨0, 0, 0⟩,
    ⟨faces.map fun f => (f, ["R"]), by simpa [List.map_map, Function.comp_def] using h⟩⟩]⟩]⟩

def bendCatalogue : Dict String BlockDef :=
  ⟨[("S", tile "S" "Start" ["n"] (by decide)), ("B", tile "B" "None" ["n", "e"] (by decide)),
    ("F", tile "F" "Finish" ["s"] (by decide))], by decide⟩

/-- Draws that always come out lowest. -/
def lowest : Rng Unit Rat := ⟨fun _ => (0, ()), fun _ _ => (0, ()), fun _ _ h => h⟩

def bendOrient : List Oriented :=
  bendCatalogue.items.flatMap fun kv => orientations kv.2 {"R"}

def bendWalker : ClipWalker Rat :=
  ⟨none, Dict.empty, bendOrient, poolOf bendOrient "Start" 1, poolOf bendOrient "Finish" 1,
    poolOf bendOrient "Checkpoint" 2, poolOf bendOrient "None" 2⟩

def bendRoute : List Placement :=
  [⟨"S", 24, 9, 24, 0, none⟩, ⟨"B", 24, 9, 25, 1, none⟩, ⟨"F", 23, 9, 25, 1, none⟩]

theorem generate_closed_bend :
    ∃ legs : List Leg, bendRoute = legs.map Leg.placement ∧
      Closed bendCatalogue ["S", "B", "F"] {"R"} legs ∧
      (bendRoute.length : Int) = max 2 1 + 1 := by
  have hw : ClipWalker.init bendCatalogue ["S", "B", "F"] {"R"} none Dict.empty =
      .ok bendWalker := by rfl
  have hroute : bendWalker.generate lowest 2 12 100 () = .ok bendRoute := by decide
  exact generate_closed hw hroute

end TraxMania.Generation
