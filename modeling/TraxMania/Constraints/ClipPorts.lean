import TraxMania.Catalogue.Block

/-
  `_clips_meet` of the placement grammar: whether the clips of two blocks meet, one block at
  rotation 0 and the other turned and moved. The clips of the second block are looked up by their
  cell and face, and a face that lists several clips keeps only the last of them.
-/

namespace TraxMania.Constraints

open TraxMania.Grid TraxMania.Catalogue Lib

/-! ## The ports of the catalogue -/

/-- A port of a turned block: its cell, the side it looks to, its clip. -/
structure Port where
  cell : Cell
  face : Face
  clip : String
deriving DecidableEq

/-- The side ports of a variant at a rotation. -/
def portsAt (v : BlockVariant) (rotation : Fin 4) : List Port :=
  v.sidePorts.map fun p =>
    ⟨rotateOffset p.offset rotation.val v.size, rotateFace p.face rotation.val, p.clipId⟩

/-- The entries of one block. -/
def indexBlock (index : Dict (String × Fin 4) (List Port)) (item : String × BlockDef) :
    Dict (String × Fin 4) (List Port) :=
  match item.2.variant "ground" 0 with
  | none => index
  | some v =>
    if v.sidePorts = [] then index
    else (List.finRange 4).foldl
      (fun index rotation => index.upsert (item.1, rotation) fun _ => portsAt v rotation) index

/-- `_clip_port_index(catalogue)`. -/
def clipPortIndex (catalogue : Dict String BlockDef) : Dict (String × Fin 4) (List Port) :=
  catalogue.items.foldl indexBlock Dict.empty

/-- `_clips_meet(ports, block_a, block_b, dx, dy, dz, rel_rotation)`. -/
def clipsMeet (ports : Dict (String × Fin 4) (List Port)) (blockA blockB : String) (offset : Cell)
    (relRotation : Fin 4) : Bool :=
  let aPorts := (ports.get? (blockA, 0)).getD []
  let bPorts := (ports.get? (blockB, relRotation)).getD []
  if aPorts = [] ∨ bPorts = [] then false
  else
    let bCells := bPorts.foldl (fun acc q => acc.upsert (offset + q.cell, q.face) fun _ => q.clip)
      (Dict.empty : Dict (Cell × Face) String)
    aPorts.any fun p =>
      decide (bCells.get? (p.cell + faceDelta p.face, oppositeFace p.face) = some p.clip)

/-! ## What the index holds -/

/-- The side ports of a block of the catalogue at a rotation. -/
def sidePortsAt (catalogue : Dict String BlockDef) (blockId : String) (rotation : Fin 4) :
    List Port :=
  match (catalogue.get? blockId).bind fun block => block.variant "ground" 0 with
  | none => []
  | some v => portsAt v rotation

/-- The entry of a block at a rotation, if it gets one. -/
def entryOf (block : BlockDef) (rotation : Fin 4) : Option (List Port) :=
  (block.variant "ground" 0).bind fun v =>
    if v.sidePorts = [] then none else some (portsAt v rotation)

/-- A loop that writes the ports of a block at every rotation. -/
theorem get?_foldl_rotations (index : Dict (String × Fin 4) (List Port)) (block blockId : String)
    (ports : Fin 4 → List Port) (rotation : Fin 4) :
    ((List.finRange 4).foldl
        (fun index rotation => index.upsert (block, rotation) fun _ => ports rotation) index).get?
          (blockId, rotation) =
      if blockId = block then some (ports rotation) else index.get? (blockId, rotation) := by
  have hloop : ∀ (rotations : List (Fin 4)) (index : Dict (String × Fin 4) (List Port)),
      (rotations.foldl (fun index rotation =>
        index.upsert (block, rotation) fun _ => ports rotation) index).get? (blockId, rotation) =
        if blockId = block ∧ rotation ∈ rotations then some (ports rotation)
        else index.get? (blockId, rotation) := by
    intro rotations
    induction rotations with
    | nil => simp
    | cons r rotations ih =>
      intro index
      rw [List.foldl_cons, ih, Dict.get?_upsert]
      by_cases hb : blockId = block
      · by_cases hr : rotation = r
        · simp [hb, hr]
        · simp [hb, hr]
      · simp [hb]
  rw [hloop]
  simp only [List.mem_finRange, and_true]

/-- A loop over the catalogue whose turn writes the entries of one block. -/
theorem get?_foldl_blocks
    {turn : Dict (String × Fin 4) (List Port) → String × BlockDef →
      Dict (String × Fin 4) (List Port)}
    (entry : BlockDef → Fin 4 → Option (List Port)) (blockId : String) (rotation : Fin 4)
    (hturn : ∀ index item, (turn index item).get? (blockId, rotation) =
      if blockId = item.1 then (entry item.2 rotation).or (index.get? (blockId, rotation))
      else index.get? (blockId, rotation)) (catalogue : Dict String BlockDef) :
    (catalogue.items.foldl turn Dict.empty).get? (blockId, rotation) =
      (catalogue.get? blockId).bind fun block => entry block rotation := by
  have hitems : ∀ items : List (String × BlockDef), (items.map Prod.fst).Nodup →
      ∀ index : Dict (String × Fin 4) (List Port),
        (items.foldl turn index).get? (blockId, rotation) =
          ((items.lookup blockId).bind fun block => entry block rotation).or
            (index.get? (blockId, rotation)) := by
    intro items
    induction items with
    | nil => exact fun _ _ => rfl
    | cons item items ih =>
      intro hnodup index
      rw [List.map_cons, List.nodup_cons] at hnodup
      rw [List.foldl_cons, ih hnodup.2, hturn, Dict.lookup_cons_ite]
      by_cases hb : blockId = item.1
      · have hrest : items.lookup blockId = none := by
          rw [List.lookup_eq_none_iff]
          intro p hp
          have hne : blockId ≠ p.1 := fun e => hnodup.1 (hb ▸ e ▸ List.mem_map_of_mem hp)
          simpa using hne
        rw [hrest, if_pos hb, if_pos hb, Option.bind_none, Option.none_or, Option.bind_some]
      · rw [if_neg hb, if_neg hb]
  rw [hitems catalogue.items catalogue.nodup]
  exact Option.or_none

theorem get?_indexBlock (index : Dict (String × Fin 4) (List Port)) (item : String × BlockDef)
    (blockId : String) (rotation : Fin 4) :
    (indexBlock index item).get? (blockId, rotation) =
      if blockId = item.1 then (entryOf item.2 rotation).or (index.get? (blockId, rotation))
      else index.get? (blockId, rotation) := by
  unfold indexBlock entryOf
  cases item.2.variant "ground" 0 with
  | none =>
    rw [Option.bind_none, Option.none_or, ite_self]
  | some v =>
    rw [Option.bind_some]
    dsimp only
    split
    · rw [Option.none_or, ite_self]
    · rw [get?_foldl_rotations, Option.some_or]

theorem get?_clipPortIndex (catalogue : Dict String BlockDef) (blockId : String)
    (rotation : Fin 4) :
    (clipPortIndex catalogue).get? (blockId, rotation) =
      (catalogue.get? blockId).bind fun block => entryOf block rotation :=
  get?_foldl_blocks entryOf blockId rotation
    (fun index item => get?_indexBlock index item blockId rotation) catalogue

/-- The index holds the ports of every block. -/
theorem getD_clipPortIndex (catalogue : Dict String BlockDef) (blockId : String)
    (rotation : Fin 4) :
    ((clipPortIndex catalogue).get? (blockId, rotation)).getD [] =
      sidePortsAt catalogue blockId rotation := by
  rw [get?_clipPortIndex]
  unfold sidePortsAt entryOf
  cases catalogue.get? blockId with
  | none => rfl
  | some block =>
    rw [Option.bind_some, Option.bind_some]
    cases block.variant "ground" 0 with
    | none => rfl
    | some v =>
      rw [Option.bind_some]
      dsimp only
      split
      · next hnil =>
        unfold portsAt
        rw [hnil]
        rfl
      · rfl

/-! ## Faces with several clips -/

/-- On the same face of the same cell. -/
def Port.SameFace (p q : Port) : Prop := p.cell = q.cell ∧ p.face = q.face

instance (p q : Port) : Decidable (p.SameFace q) :=
  inferInstanceAs (Decidable (p.cell = q.cell ∧ p.face = q.face))

/-- The clips of both ports meet when the second one is moved by `offset`. -/
def Port.Meets (offset : Cell) (p q : Port) : Prop :=
  offset + q.cell = p.cell + faceDelta p.face ∧ q.face = oppositeFace p.face ∧ q.clip = p.clip

/-- The last port listed on its face. -/
def LastOnFace (ports : List Port) (q : Port) : Prop :=
  (ports.filter fun r => decide (r.SameFace q)).getLast? = some q

/-- The face of `q` lists another clip last. -/
def Dropped (ports : List Port) (q : Port) : Prop :=
  ∃ r, LastOnFace ports r ∧ r.SameFace q ∧ r.clip ≠ q.clip

/-- A clip meets for the key. -/
def ClipMeets (catalogue : Dict String BlockDef) (blockA blockB : String) (offset : Cell)
    (relRotation : Fin 4) : Prop :=
  ∃ p ∈ sidePortsAt catalogue blockA 0, ∃ q ∈ sidePortsAt catalogue blockB relRotation,
    p.Meets offset q

section Faces

variable {ports : List Port}

theorem filter_sameFace {r q : Port} (h : r.SameFace q) :
    (ports.filter fun s => decide (s.SameFace r)) =
      ports.filter fun s => decide (s.SameFace q) := by
  refine List.filter_congr fun s _ => decide_eq_decide.mpr ?_
  unfold Port.SameFace
  rw [h.1, h.2]

theorem LastOnFace.mem {q : Port} (h : LastOnFace ports q) : q ∈ ports :=
  (List.mem_filter.mp (List.mem_of_getLast? h)).1

theorem LastOnFace.unique {q r : Port} (hq : LastOnFace ports q) (hr : LastOnFace ports r)
    (h : r.SameFace q) : r = q := by
  unfold LastOnFace at hq hr
  rw [filter_sameFace h, hq] at hr
  exact (Option.some.inj hr).symm

/-- Every face with a port lists one last. -/
theorem exists_lastOnFace {q : Port} (hq : q ∈ ports) : ∃ r, LastOnFace ports r ∧ r.SameFace q := by
  have hmem : q ∈ ports.filter fun s => decide (s.SameFace q) :=
    List.mem_filter.mpr ⟨hq, decide_eq_true ⟨rfl, rfl⟩⟩
  obtain ⟨r, hr⟩ := Option.ne_none_iff_exists'.mp
    (mt List.getLast?_eq_none_iff.mp (List.ne_nil_of_mem hmem))
  have hsame : r.SameFace q :=
    of_decide_eq_true (List.mem_filter.mp (List.mem_of_getLast? hr)).2
  refine ⟨r, ?_, hsame⟩
  unfold LastOnFace
  rw [filter_sameFace hsame]
  exact hr

theorem LastOnFace.not_dropped {q : Port} (hq : LastOnFace ports q) : ¬ Dropped ports q := by
  rintro ⟨r, hr, hsame, hclip⟩
  exact hclip (congrArg Port.clip (hq.unique hr hsame))

/-- A look-up by face finds the clip listed last. -/
theorem get?_faces (offset c : Cell) (f : Face) (clip : String) :
    (ports.foldl (fun acc q => acc.upsert (offset + q.cell, q.face) fun _ => q.clip)
      (Dict.empty : Dict (Cell × Face) String)).get? (c, f) = some clip ↔
      ∃ q, LastOnFace ports q ∧ offset + q.cell = c ∧ q.face = f ∧ q.clip = clip := by
  rw [Dict.get?_foldl_overwrite, Option.map_eq_some_iff]
  have hface : ∀ q : Port, offset + q.cell = c → q.face = f →
      (ports.filter fun r => decide ((offset + r.cell, r.face) = (c, f))) =
        ports.filter fun r => decide (r.SameFace q) := by
    intro q hc hf
    refine List.filter_congr fun r _ => ?_
    have hcell : offset + r.cell = c ↔ r.cell = q.cell := by
      rw [← hc]
      constructor
      · intro h
        rw [← Cell.add_sub_self offset r.cell, h, Cell.add_sub_self]
      · exact congrArg (offset + ·)
    simp only [Prod.mk.injEq, Port.SameFace, hcell, hf]
  constructor
  · rintro ⟨q, hq, rfl⟩
    have hkey := of_decide_eq_true (List.mem_filter.mp (List.mem_of_getLast? hq)).2
    obtain ⟨hc, hf⟩ := Prod.mk.inj hkey
    refine ⟨q, ?_, hc, hf, rfl⟩
    unfold LastOnFace
    rw [← hface q hc hf]
    exact hq
  · rintro ⟨q, hq, hc, hf, rfl⟩
    refine ⟨q, ?_, rfl⟩
    rw [hface q hc hf]
    exact hq

end Faces

/-! ## What the look-up finds -/

section Look

variable (catalogue : Dict String BlockDef) (blockA blockB : String) (offset : Cell)
  (relRotation : Fin 4)

theorem clipsMeet_iff_last :
    clipsMeet (clipPortIndex catalogue) blockA blockB offset relRotation = true ↔
      ∃ p ∈ sidePortsAt catalogue blockA 0, ∃ q,
        LastOnFace (sidePortsAt catalogue blockB relRotation) q ∧ p.Meets offset q := by
  unfold clipsMeet
  rw [getD_clipPortIndex, getD_clipPortIndex]
  dsimp only
  split
  · next hnil =>
    refine iff_of_false Bool.false_ne_true ?_
    rintro ⟨p, hp, q, hq, -⟩
    rcases hnil with h | h
    · rw [h] at hp
      exact List.not_mem_nil hp
    · have hq := hq.mem
      rw [h] at hq
      exact List.not_mem_nil hq
  · simp only [List.any_eq_true, decide_eq_true_eq, get?_faces, Port.Meets]

/-- It finds the clips that meet and that no later clip of their face hides. -/
theorem clipsMeet_iff_kept :
    clipsMeet (clipPortIndex catalogue) blockA blockB offset relRotation = true ↔
      ∃ p ∈ sidePortsAt catalogue blockA 0, ∃ q ∈ sidePortsAt catalogue blockB relRotation,
        p.Meets offset q ∧ ¬ Dropped (sidePortsAt catalogue blockB relRotation) q := by
  rw [clipsMeet_iff_last]
  constructor
  · rintro ⟨p, hp, q, hq, hmeets⟩
    exact ⟨p, hp, q, hq.mem, hmeets, hq.not_dropped⟩
  · rintro ⟨p, hp, q, hq, ⟨hcell, hface, hclip⟩, hkept⟩
    obtain ⟨r, hr, hsame⟩ := exists_lastOnFace hq
    have hrclip : r.clip = q.clip := by
      by_contra hne
      exact hkept ⟨r, hr, hsame, hne⟩
    refine ⟨p, hp, r, hr, ?_, ?_, ?_⟩
    · rw [hsame.1]
      exact hcell
    · rw [hsame.2]
      exact hface
    · rw [hrclip]
      exact hclip

/-- The code finds a clip that meets exactly when not all that meet are hidden: whenever a clip of
    `blockA` meets one that another clip of its face follows, some clip of `blockA` also meets one
    that is not followed. -/
theorem clips_meet_iff :
    (clipsMeet (clipPortIndex catalogue) blockA blockB offset relRotation = true ↔
        ClipMeets catalogue blockA blockB offset relRotation) ↔
      ∀ p ∈ sidePortsAt catalogue blockA 0, ∀ q ∈ sidePortsAt catalogue blockB relRotation,
        p.Meets offset q → Dropped (sidePortsAt catalogue blockB relRotation) q →
          ∃ p' ∈ sidePortsAt catalogue blockA 0,
            ∃ q' ∈ sidePortsAt catalogue blockB relRotation,
              p'.Meets offset q' ∧ ¬ Dropped (sidePortsAt catalogue blockB relRotation) q' := by
  rw [clipsMeet_iff_kept]
  constructor
  · intro h p hp q hq hmeets _
    exact h.mpr ⟨p, hp, q, hq, hmeets⟩
  · intro h
    constructor
    · rintro ⟨p, hp, q, hq, hmeets, -⟩
      exact ⟨p, hp, q, hq, hmeets⟩
    · rintro ⟨p, hp, q, hq, hmeets⟩
      by_cases hdropped : Dropped (sidePortsAt catalogue blockB relRotation) q
      · exact h p hp q hq hmeets hdropped
      · exact ⟨p, hp, q, hq, hmeets, hdropped⟩

end Look

/-! ## Blocks with one clip on every face -/

/-! ## A face with two clips -/

/-- A block of one cell with clips on one face. -/
def oneFace (blockId key : String) (clips : List String) : BlockDef :=
  let unit : BlockUnit := ⟨⟨0, 0, 0⟩, ⟨[(key, clips)], List.nodup_singleton _⟩⟩
  ⟨blockId, "None", [⟨"ground", 0, ⟨1, 1, 1⟩, [unit]⟩]⟩

def twoClips : Dict String BlockDef where
  items := [("Road", oneFace "Road" "n" ["RoadTech"]),
    ("Cross", oneFace "Cross" "s" ["RoadTech", "RoadDirt"])]
  nodup := by decide

/-- The road's clip is the first one of the face it looks at, and is not found. -/
theorem clip_listed_first : clipsMeet (clipPortIndex twoClips) "Road" "Cross" ⟨0, 0, 1⟩ 0 = false ∧
    ClipMeets twoClips "Road" "Cross" ⟨0, 0, 1⟩ 0 := by
  refine ⟨by decide +kernel, ⟨⟨0, 0, 0⟩, 0, "RoadTech"⟩, by decide +kernel,
    ⟨⟨0, 0, 0⟩, 2, "RoadTech"⟩, by decide +kernel, ?_⟩
  exact ⟨by decide, by decide, rfl⟩

end TraxMania.Constraints
